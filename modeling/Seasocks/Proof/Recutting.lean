import Seasocks.Proof.Frames
import Seasocks.Proof.InputStream

/-!
# Streams cut in different ways

Where the reads cut a stream of WebSocket frames makes no difference to what a connection does, as long
as the decoder is not shown a length that is cut off behind another frame.
-/

namespace Seasocks.Connection

open Program Relation WebSocketFrame HybiPacketDecoder

variable {w : World} {c : Connection}

/-! ### More of a stream -/

/-- A connection up to what two cuts of a stream may differ in: how many bytes have been received, and
what is in the buffer of a closed connection. -/
def settle (c : Connection) : Connection := withInput 0 (if c.closed then [] else c.inBuf) c

theorem settle_withInput (bytesReceived : Nat) (inBuf : Bytes) (c : Connection) :
    settle (withInput bytesReceived inBuf c) = withInput 0 (if c.closed then [] else inBuf) c := rfl

theorem settle_of_open (h : c.closed = false) : settle c = withInput 0 c.inBuf c := by
  rw [settle, h]
  rfl

/-- What a settled connection is after more of the stream. -/
def absorb (w : World) (more : Bytes) (c : Connection) : Connection :=
  if c.closed then c
  else
    match (consume w ((c.inBuf ++ more).length + 1) (c.inBuf ++ more)).run c with
    | .ok rest c' => settle (withInput 0 (rest.getD []) c')
    | .error _ c' => settle c'

theorem absorb_of_closed (more : Bytes) (h : c.closed = true) : absorb w more c = c := by
  rw [absorb, if_pos h]

theorem absorb_of_run {more : Bytes} {rest : Option Bytes} {c' : Connection}
    (hopen : c.closed = false)
    (h : (consume w ((c.inBuf ++ more).length + 1) (c.inBuf ++ more)).run c = .ok rest c') :
    absorb w more c = settle (withInput 0 (rest.getD []) c') := by
  rw [absorb, if_neg (by simp [hopen]), h]

theorem run_withInput {α : Type} {m : ConnM α} (hm : Blind m) {c c' : Connection} {a : α}
    (h : m.run c = .ok a c') (bytesReceived : Nat) (inBuf : Bytes) :
    m.run (withInput bytesReceived inBuf c) = .ok a (withInput bytesReceived inBuf c') := by
  rw [hm bytesReceived inBuf c, h]
  rfl

/-- Neither a socket error nor an overflow of the output buffer. -/
def Untroubled (c : Connection) : Prop := ∀ event ∈ c.out.log, Output.isFailure event = false

theorem closing_of_quiet {c' : Connection} (h : Output.Quiet c.out c'.out) (hopen : c.closing = false)
    (hquiet : Untroubled c') : c'.closing = false := by
  obtain ⟨events, hlog, hkeep, -⟩ := h
  refine hkeep hopen fun event hevent => hquiet event ?_
  rw [hlog]
  exact List.mem_append_right _ hevent

theorem Undisturbed.closing {c' : Connection} (h : Undisturbed c c') (hopen : c.closing = false)
    (hquiet : Untroubled c') : c'.closing = false := closing_of_quiet h.2.2 hopen hquiet

theorem closed_of_closing (h : c.closing = false) : c.closed = false := by
  rw [closing, Output.closing, Bool.or_eq_false_iff] at h
  exact h.1

/-- Absorbing part of a stream and then the rest is absorbing the stream. -/
theorem absorb_append (hw : NeverCloses w) {stream more : Bytes}
    (hopen : c.closed = false → c.closing = false) (hquiet : Untroubled (absorb w stream c)) :
    absorb w more (absorb w stream c) = absorb w (stream ++ more) c := by
  by_cases hclosed : c.closed = true
  · rw [absorb_of_closed stream hclosed, absorb_of_closed more hclosed, absorb_of_closed _ hclosed]
  rw [Bool.not_eq_true] at hclosed
  obtain ⟨c₁, hrun, h₁⟩ := exists_run_consume hw (c.inBuf ++ stream) (Nat.lt_succ_self _) c
  rw [absorb_of_run hclosed hrun] at hquiet ⊢
  cases hrest : unread ((c.inBuf ++ stream).length + 1) (c.inBuf ++ stream) with
  | none =>
      rw [hrest] at hrun
      have hclosed₁ : (settle (withInput 0 [] c₁)).closed = true := h₁.closed hrest
      have hwhole : (consume w ((c.inBuf ++ (stream ++ more)).length + 1)
          (c.inBuf ++ (stream ++ more))).run c = .ok none c₁ := by
        rw [← List.append_assoc, consume_append (Nat.lt_succ_self _) (Nat.lt_succ_self _)
          (Nat.lt_succ_self _), run_bind_of_ok hrun]
        rfl
      rw [absorb_of_run hclosed hwhole]
      exact absorb_of_closed more hclosed₁
  | some left =>
      obtain ⟨hundisturbed, hleaves⟩ := h₁.left left hrest
      rw [hrest] at hrun hquiet
      have hopen₁ := closed_of_closing (hundisturbed.closing (hopen hclosed) hquiet)
      have hsettle : settle (withInput 0 left c₁) = withInput 0 left c₁ := by
        rw [settle_withInput, hopen₁]
        rfl
      obtain ⟨c₂, hrun₂, -⟩ := exists_run_consume hw (left ++ more) (Nat.lt_succ_self _) c₁
      have hfuel : (left ++ more).length < (c.inBuf ++ stream ++ more).length + 1 := by
        have hle := hleaves.1.length_le
        simp only [List.length_append] at hle ⊢
        omega
      have hwhole : (consume w ((c.inBuf ++ (stream ++ more)).length + 1)
          (c.inBuf ++ (stream ++ more))).run c =
          .ok (unread ((left ++ more).length + 1) (left ++ more)) c₂ := by
        rw [← List.append_assoc, consume_append (Nat.lt_succ_self _) (Nat.lt_succ_self _)
          (Nat.lt_succ_self _), run_bind_of_ok hrun]
        dsimp only
        rw [consume_fuel hfuel (Nat.lt_succ_self _)]
        exact hrun₂
      have hrun₂' := run_withInput (consume_blind _ _) hrun₂ 0 left
      rw [Option.getD_some, hsettle, absorb_of_run (c := withInput 0 left c₁) hopen₁ hrun₂',
        absorb_of_run hclosed hwhole]
      rfl

/-! ### One read -/

/-- A connection handles frames, and `stream` is what is still to come. -/
structure Receiving (stream : Bytes) (c : Connection) : Prop where
  state : c.state = .handlingHybiWebSocket
  alive : c.alive = true
  unread : c.closed = false → c.closing = false ∧ scan c.inBuf = .incomplete ∧
    AllFrames Modest (c.inBuf ++ stream)

/-- What the connection is after the loop: the rest of the stream is what is in the buffer. -/
def keep (rest : Option Bytes) (c : Connection) : Connection :=
  match rest with
  | none => c
  | some left => { c with inBuf := left }

theorem handleHybiWebSocket_run {rest : Option Bytes} {c' : Connection}
    (hmodest : AllFrames Modest c.inBuf) (hwhole : LengthsWhole c.inBuf 0)
    (hrun : (consume w (c.inBuf.length + 1) c.inBuf).run c = .ok rest c')
    (hrest : ∀ left ∈ rest, c'.inBuf = c.inBuf ∧ Leaves c.inBuf left) :
    (handleHybiWebSocket w).run c = .ok () (keep rest c') := by
  rw [handleHybiWebSocket, EStateM.run_bind]
  dsimp only [EStateM.run_get]
  by_cases hempty : c.inBuf = []
  · rw [if_neg (by simp [hempty])]
    rw [hempty] at hrun
    injection hrun with hrest' hc'
    subst hrest' hc'
    simp only [keep, ← hempty]
    rfl
  have hloop : (hybiLoop w c.inBuf (c.inBuf.length + 1) 0).run c =
      .ok (rest.map fun left => c.inBuf.length - left.length) c' := by
    rw [hybiLoop_eq c.inBuf _ (Nat.zero_le _) hmodest hwhole, List.drop_zero, run_bind_of_ok hrun]
    rfl
  rw [if_pos hempty, run_bind_of_ok hloop]
  cases rest with
  | none => rfl
  | some left =>
      obtain ⟨hinBuf, hleaves⟩ := hrest left rfl
      have hleft : c'.inBuf.drop (c.inBuf.length - left.length) = left := by
        rw [hinBuf]
        exact (List.suffix_iff_eq_drop.mp hleaves.1).symm
      have hbound : left.length ≤ maxWebsocketMessageSize := by
        have hall := hleaves.2.2 []
        simp only [List.append_nil] at hall
        exact length_le_of_incomplete (by decide) hleaves.2.1 (hall hmodest).head.2
      dsimp only [Option.map_some]
      rw [run_modify_bind, hleft, closeIfTooLong, EStateM.run_bind]
      dsimp only [EStateM.run_get]
      rw [if_neg (by omega)]
      rfl

/-- What handling `received` has made of a connection that receives a stream. -/
structure Handled (w : World) (received stream : Bytes) (c c' : Connection) : Prop where
  absorbed : settle c' = absorb w received (settle c)
  receiving : Untroubled c' → Receiving stream c'
  stopped : unread ((c.inBuf ++ received).length + 1) (c.inBuf ++ received) = none → c'.closed = true
  left : ∀ left ∈ unread ((c.inBuf ++ received).length + 1) (c.inBuf ++ received),
    c'.inBuf = left ∧ (Untroubled c' → c'.closed = false)

theorem handleHybiWebSocket_handles (hw : NeverCloses w) {received stream : Bytes}
    (h : Receiving (received ++ stream) c) (hclosed : c.closed = false)
    (hwhole : LengthsWhole (c.inBuf ++ received) 0) (bytesReceived : Nat) :
    ∃ c', (handleHybiWebSocket w).run (withInput bytesReceived (c.inBuf ++ received) c) = .ok () c' ∧
      Handled w received stream c c' := by
  obtain ⟨hopen, hincomplete, hmodest⟩ := h.unread hclosed
  rw [← List.append_assoc] at hmodest
  have hmodest' : AllFrames Modest (c.inBuf ++ received) :=
    hmodest.of_append fun _ _ => Modest.of_append
  obtain ⟨c₁, hrun, h₁⟩ := exists_run_consume hw (c.inBuf ++ received) (Nat.lt_succ_self _) c
  have hrun' := run_withInput (consume_blind _ _) hrun bytesReceived (c.inBuf ++ received)
  have hread := handleHybiWebSocket_run (c := withInput bytesReceived (c.inBuf ++ received) c)
    hmodest' hwhole hrun' fun left hleft => ⟨rfl, (h₁.left left hleft).2⟩
  have habsorb : absorb w received (settle c) =
      settle (withInput 0 ((unread ((c.inBuf ++ received).length + 1)
        (c.inBuf ++ received)).getD []) c₁) := by
    rw [settle_of_open hclosed]
    have hsettled := run_withInput (consume_blind _ _) hrun 0 c.inBuf
    have habsorb := absorb_of_run (c := withInput 0 c.inBuf c) hclosed hsettled
    exact habsorb
  refine ⟨_, hread, ?_⟩
  cases hrest : unread ((c.inBuf ++ received).length + 1) (c.inBuf ++ received) with
  | none =>
      have hclosed₁ := h₁.closed hrest
      rw [hrest] at habsorb
      refine ⟨?_, fun _ => ⟨?_, ?_, fun hopen₁ => ?_⟩, fun _ => hclosed₁, by rw [hrest]; exact nofun⟩
      · rw [habsorb, keep, settle_withInput, settle_withInput, hclosed₁]
        rfl
      · exact h₁.state.trans h.state
      · exact h₁.alive.trans h.alive
      · exact absurd hclosed₁ (by simp [show c₁.closed = false from hopen₁])
  | some left =>
      obtain ⟨hundisturbed, hleaves⟩ := h₁.left left hrest
      rw [hrest] at habsorb
      refine ⟨habsorb.symm, fun hquiet => ⟨?_, ?_, fun _ => ⟨?_, hleaves.2.1, hleaves.2.2 stream hmodest⟩⟩,
        by rw [hrest]; exact nofun, fun left' hleft' => ?_⟩
      · exact h₁.state.trans h.state
      · exact h₁.alive.trans h.alive
      · exact hundisturbed.closing hopen hquiet
      · rw [hrest] at hleft'
        exact ⟨Option.mem_some_iff.mp hleft',
          fun hquiet => closed_of_closing (hundisturbed.closing hopen hquiet)⟩

theorem handleHybiWebSocket_cutOff (hw : NeverCloses w) {received stream : Bytes}
    (h : Receiving (received ++ stream) c) (hclosed : c.closed = false)
    (hcut : ¬ LengthsWhole (c.inBuf ++ received) 0) (bytesReceived : Nat) :
    ∃ c', (handleHybiWebSocket w).run (withInput bytesReceived (c.inBuf ++ received) c) =
      .error (.fault .outOfRange) c' := by
  obtain ⟨-, -, hmodest⟩ := h.unread hclosed
  rw [← List.append_assoc] at hmodest
  have hmodest' : AllFrames Modest (c.inBuf ++ received) :=
    hmodest.of_append fun _ _ => Modest.of_append
  have hsome : c.inBuf ++ received ≠ [] := by
    intro hempty
    rw [hempty] at hcut
    refine hcut fun count _ hcutOff => ?_
    obtain ⟨b0, b1, rest, hdrop, -⟩ := hcutOff
    rw [List.drop_nil] at hdrop
    cases hdrop
  have hfuel : (c.inBuf ++ received).length - 0 < (c.inBuf ++ received).length + 1 :=
    Nat.lt_succ_self _
  obtain ⟨c', hloop⟩ := hybiLoop_cutOff hw (c.inBuf ++ received) (Nat.zero_le _) hfuel hmodest' hcut
    (withInput bytesReceived (c.inBuf ++ received) c)
  refine ⟨c', ?_⟩
  rw [handleHybiWebSocket, EStateM.run_bind]
  dsimp only [EStateM.run_get]
  rw [if_pos (show (withInput bytesReceived (c.inBuf ++ received) c).inBuf ≠ [] from hsome)]
  exact run_bind_of_error hloop

abbrev Piece := { bytes : Bytes // bytes ≠ [] ∧ bytes.length ≤ readWriteBufferSize }

theorem step_data_run (halive : c.alive = true) (hopen : c.closed = false) (received : Piece) :
    (step w (.readable (.data received))).run c = (handleNewData w).run
      (withInput (c.bytesReceived + received.val.length) (c.inBuf ++ received.val) c) := by
  rw [step, EStateM.run_bind]
  dsimp only [EStateM.run_get]
  rw [if_pos halive, handleDataReadyForRead, EStateM.run_bind]
  dsimp only [EStateM.run_get]
  rw [if_pos (by simp [hopen])]
  rfl

theorem step_data_of_closed (halive : c.alive = true) (hclosed : c.closed = true)
    (received : Piece) : (step w (.readable (.data received))).run c = .ok () c := by
  rw [step, EStateM.run_bind]
  dsimp only [EStateM.run_get]
  rw [if_pos halive, handleDataReadyForRead, EStateM.run_bind]
  dsimp only [EStateM.run_get]
  rw [if_neg (by simp [hclosed])]
  rfl

theorem handleNewDataFrom_of_state {fuel : Nat} (hstate : c.state = .handlingHybiWebSocket) :
    (handleNewDataFrom w (fuel + 1)).run c = (handleHybiWebSocket w).run c := by
  rw [handleNewDataFrom, EStateM.run_bind]
  dsimp only [EStateM.run_get]
  rw [hstate]

theorem step_data (halive : c.alive = true) (hopen : c.closed = false)
    (hstate : c.state = .handlingHybiWebSocket) (received : Piece) :
    (step w (.readable (.data received))).run c = (handleHybiWebSocket w).run
      (withInput (c.bytesReceived + received.val.length) (c.inBuf ++ received.val) c) := by
  rw [step_data_run halive hopen, handleNewData, EStateM.run_bind]
  exact handleNewDataFrom_of_state hstate

/-! ### Many reads -/

def reads (pieces : List Piece) : List Event := pieces.map fun piece => .readable (.data piece)

/-- Neither a socket error nor an overflow at any time. -/
def UntroubledRun (w : World) (events : List Event) (c : Connection) : Prop :=
  ∀ before, before <+: events → ∀ c', run w before c = .ok c' → Untroubled c'

instance : Decidable (Untroubled c) :=
  inferInstanceAs (Decidable (∀ event ∈ c.out.log, Output.isFailure event = false))

instance (events : List Event) : Decidable (UntroubledRun w events c) :=
  decidable_of_iff (∀ before ∈ events.inits, ∀ c' ∈ (run w before c).toOption, Untroubled c') <| by
    refine forall_congr' fun before => imp_congr (List.mem_inits before events) ?_
    cases run w before c <;> simp [Except.toOption]

theorem UntroubledRun.tail {event : Event} {events : List Event} {c₁ : Connection}
    (h : UntroubledRun w (event :: events) c) (hstep : (step w event).run c = .ok () c₁) :
    UntroubledRun w events c₁ := by
  intro before hbefore c' hrun
  refine h (event :: before) ((List.prefix_cons_inj event).mpr hbefore) c' ?_
  rw [run_cons_ok hstep]
  exact hrun

theorem UntroubledRun.step {event : Event} {events : List Event} {c₁ : Connection}
    (h : UntroubledRun w (event :: events) c) (hstep : (step w event).run c = .ok () c₁) : Untroubled c₁ :=
  h.tail hstep [] (List.nil_prefix) c₁ rfl

/-- No read ends in a length behind another frame: `buffer` is what is left of the pieces before. -/
def KeepsLengths : Bytes → List Bytes → Prop
  | _, [] => True
  | buffer, piece :: pieces =>
      LengthsWhole (buffer ++ piece) 0 ∧
        ∀ left ∈ unread ((buffer ++ piece).length + 1) (buffer ++ piece), KeepsLengths left pieces

theorem run_reads_of_closed (pieces : List Piece) (halive : c.alive = true)
    (hclosed : c.closed = true) : run w (reads pieces) c = .ok c := by
  induction pieces with
  | nil => rfl
  | cons piece pieces ih =>
      exact (run_cons_ok (step_data_of_closed halive hclosed piece)).trans ih

section FirstRead

/- The first read hands `c₀` the beginning of the stream. -/
variable {c₀ : Connection} {first : Piece} {received : Bytes} {bytesReceived : Nat}
  {pieces : List Piece}

/-- The connection is the same, up to its buffer once it is closed, as if it had absorbed the stream. -/
theorem run_reads_of_keepsLengths (hw : NeverCloses w)
    (h : Receiving (received ++ (pieces.map Subtype.val).flatten) c₀) (hopen : c₀.closed = false)
    (hfirst : (step w (.readable (.data first))).run c =
      (handleHybiWebSocket w).run (withInput bytesReceived (c₀.inBuf ++ received) c₀))
    (hquiet : UntroubledRun w (reads (first :: pieces)) c)
    (hkeeps : KeepsLengths c₀.inBuf (received :: pieces.map Subtype.val)) :
    ∃ c', run w (reads (first :: pieces)) c = .ok c' ∧
      settle c' = absorb w (received ++ (pieces.map Subtype.val).flatten) (settle c₀) := by
  induction pieces generalizing c c₀ first received bytesReceived with
  | nil =>
      rw [List.map_nil, List.flatten_nil] at h ⊢
      obtain ⟨c₁, hrun, h₁⟩ := handleHybiWebSocket_handles hw h hopen hkeeps.1 bytesReceived
      rw [← hfirst] at hrun
      refine ⟨c₁, run_cons_ok hrun, ?_⟩
      rw [List.append_nil]
      exact h₁.absorbed
  | cons piece pieces ih =>
      obtain ⟨c₁, hrun, h₁⟩ := handleHybiWebSocket_handles hw h hopen hkeeps.1 bytesReceived
      rw [← hfirst] at hrun
      have hquiet₁ := hquiet.step hrun
      have hreceiving := h₁.receiving hquiet₁
      have hopening : (settle c₀).closed = false → (settle c₀).closing = false :=
        fun hopen => (h.unread hopen).1
      have hsettled : Untroubled (absorb w received (settle c₀)) := h₁.absorbed ▸ hquiet₁
      rw [← absorb_append hw hopening hsettled, ← h₁.absorbed]
      by_cases hclosed : c₁.closed = true
      · refine ⟨c₁, (run_cons_ok hrun).trans ?_, ?_⟩
        · exact run_reads_of_closed (piece :: pieces) hreceiving.alive hclosed
        · exact (absorb_of_closed (c := settle c₁) _ hclosed).symm
      · rw [Bool.not_eq_true] at hclosed
        have hkeeps₁ : KeepsLengths c₁.inBuf ((piece :: pieces).map Subtype.val) := by
          cases hrest : unread ((c₀.inBuf ++ received).length + 1) (c₀.inBuf ++ received) with
          | none => exact absurd (h₁.stopped hrest) (by simp [hclosed])
          | some left =>
              rw [(h₁.left left hrest).1]
              exact hkeeps.2 left hrest
        rw [List.map_cons, List.flatten_cons] at hreceiving ⊢
        obtain ⟨c', hrun', hsettle⟩ := ih hreceiving hclosed
          (step_data hreceiving.alive hclosed hreceiving.state piece) (hquiet.tail hrun) hkeeps₁
        exact ⟨c', (run_cons_ok hrun).trans hrun', hsettle⟩

theorem run_reads_of_cutOff (hw : NeverCloses w)
    (h : Receiving (received ++ (pieces.map Subtype.val).flatten) c₀) (hopen : c₀.closed = false)
    (hfirst : (step w (.readable (.data first))).run c =
      (handleHybiWebSocket w).run (withInput bytesReceived (c₀.inBuf ++ received) c₀))
    (hcut : ¬ LengthsWhole (c₀.inBuf ++ received) 0) :
    run w (reads (first :: pieces)) c = .error .outOfRange := by
  obtain ⟨c₁, hrun⟩ := handleHybiWebSocket_cutOff hw h hopen hcut bytesReceived
  rw [← hfirst] at hrun
  rw [reads, List.map_cons, run, hrun]

theorem run_reads_of_not_keepsLengths (hw : NeverCloses w)
    (h : Receiving (received ++ (pieces.map Subtype.val).flatten) c₀) (hopen : c₀.closed = false)
    (hfirst : (step w (.readable (.data first))).run c =
      (handleHybiWebSocket w).run (withInput bytesReceived (c₀.inBuf ++ received) c₀))
    (hquiet : UntroubledRun w (reads (first :: pieces)) c)
    (hcut : ¬ KeepsLengths c₀.inBuf (received :: pieces.map Subtype.val)) :
    run w (reads (first :: pieces)) c = .error .outOfRange := by
  induction pieces generalizing c c₀ first received bytesReceived with
  | nil =>
      refine run_reads_of_cutOff hw h hopen hfirst fun hwhole => hcut ⟨hwhole, fun _ _ => trivial⟩
  | cons piece pieces ih =>
      by_cases hwhole : LengthsWhole (c₀.inBuf ++ received) 0
      · rw [KeepsLengths, not_and] at hcut
        have hlater := hcut hwhole
        push Not at hlater
        obtain ⟨left, hleft, hlater⟩ := hlater
        obtain ⟨c₁, hrun, h₁⟩ := handleHybiWebSocket_handles hw h hopen hwhole bytesReceived
        rw [← hfirst] at hrun
        have hquiet₁ := hquiet.step hrun
        have hreceiving := h₁.receiving hquiet₁
        obtain ⟨hinBuf, hopen₁⟩ := h₁.left left hleft
        have hstep := step_data (w := w) hreceiving.alive (hopen₁ hquiet₁) hreceiving.state piece
        rw [← hinBuf] at hlater
        rw [List.map_cons, List.flatten_cons] at hreceiving
        exact (run_cons_ok hrun).trans
          (ih hreceiving (hopen₁ hquiet₁) hstep (hquiet.tail hrun) hlater)
      · exact run_reads_of_cutOff hw h hopen hfirst hwhole

end FirstRead

/-! ### The read with the header block -/

/-- More has been received. -/
def extend (early : Bytes) (c : Connection) : Connection :=
  withInput (c.bytesReceived + early.length) (c.inBuf ++ early) c

theorem Blind.commutes_extend {α : Type} {m : ConnM α} (hm : Blind m) (early : Bytes) :
    Commutes (extend early) m := by
  intro c
  have hsame : m.run c = mapState (withInput c.bytesReceived c.inBuf) (m.run c) :=
    hm c.bytesReceived c.inBuf c
  rw [extend, hm]
  cases hrun : m.run c with
  | ok a c' =>
      rw [hrun] at hsame
      injection hsame with _ hc'
      rw [mapState, mapState, extend, hc']
      rfl
  | error e c' =>
      rw [hrun] at hsame
      injection hsame with _ hc'
      rw [mapState, mapState, extend, hc']
      rfl

theorem processHeaders_extend {last : Nat} (hlast : last ≤ c.inBuf.length) (early : Bytes) :
    (processHeaders w last).run (extend early c) =
      mapState (extend early) ((processHeaders w last).run c) := by
  have htake : (extend early c).inBuf.take last = c.inBuf.take last :=
    List.take_append_of_le_length hlast
  have hdrop : ∀ memory : Bytes, ({ extend early c with
      inBuf := memory ++ (extend early c).inBuf.drop last } : Connection) =
        extend early { c with inBuf := memory ++ c.inBuf.drop last } := by
    intro memory
    rw [extend, extend]
    dsimp only [withInput]
    rw [List.drop_append_of_le_length hlast, List.append_assoc]
  rw [processHeaders, EStateM.run_bind, EStateM.run_bind]
  dsimp only [EStateM.run_get]
  rw [htake]
  cases RequestParser.block.run (c.inBuf.take last) with
  | ok parsed memory =>
      rw [EStateM.run_bind, EStateM.run_bind]
      dsimp only [EStateM.run_set]
      rw [hdrop]
      exact (processParsed_blind _ _ _).commutes_extend early _
  | error stop memory =>
      cases stop with
      | fault f => rfl
      | reject responseCode reason =>
          rw [EStateM.run_bind, EStateM.run_bind]
          dsimp only [EStateM.run_set]
          rw [hdrop]
          exact (sendError_blind _ _).commutes_extend early _

/-- The bytes behind a header block make no difference to how it is handled. -/
theorem handleHeaders_extend (hstate : c.state = .readingHeaders) {i : Nat}
    (hfind : find (crlf ++ crlf) c.inBuf = some i) (early : Bytes) :
    (handleHeaders w).run (extend early c) = mapState (extend early) ((handleHeaders w).run c) := by
  have hlength := length_of_find hfind (by simp [crlf])
  rw [show (crlf ++ crlf).length = 4 from rfl] at hlength
  have hfind' : find (crlf ++ crlf) (extend early c).inBuf = some i := find_append hfind early
  have htake : (extend early c).inBuf.take (i + 4) = c.inBuf.take (i + 4) :=
    List.take_append_of_le_length hlength
  rw [handleHeaders, EStateM.run_bind, EStateM.run_bind]
  dsimp only [EStateM.run_get]
  rw [hfind, hfind']
  dsimp only
  rw [record, record, run_modify_bind, run_modify_bind, htake]
  generalize hrecorded : ({ c with calls := _ } : Connection) = c₀
  have hextended : ({ extend early c with
      calls := (extend early c).calls ++ [⟨.headers (c.inBuf.take (i + 4)), (extend early c).out⟩] } :
        Connection) = extend early c₀ := by
    rw [← hrecorded]
    rfl
  have hinBuf : c₀.inBuf = c.inBuf := by rw [← hrecorded]
  have hlast : i + 2 ≤ c₀.inBuf.length := by
    rw [hinBuf]
    omega
  have htaken : JustTaken c₀.calls c₀.out := by
    rw [← hrecorded]
    exact justTaken_concat rfl
  have hstate₀ : c₀.state = .readingHeaders := by
    rw [← hrecorded]
    exact hstate
  have hinput := @processHeaders_input w c₀ (i + 2) hstate₀ htaken
  rw [hextended, EStateM.run_bind, EStateM.run_bind, processHeaders_extend hlast]
  unfold Ends at hinput
  cases hrun : (processHeaders w (i + 2)).run c₀ with
  | error e c₁ => rfl
  | ok accepted c₁ =>
      rw [hrun] at hinput
      obtain ⟨-, memory, hmemory, hinBuf₁⟩ := hinput
      have hlength₁ : i + 4 ≤ c₁.inBuf.length := by
        rw [hinBuf₁, List.length_append, hmemory, ← List.length_append, List.take_append_drop, hinBuf]
        exact hlength
      rw [mapState]
      dsimp only
      by_cases haccepted : accepted = true
      · rw [if_pos haccepted, run_modify_bind, run_modify_bind]
        have hdrop : ({ extend early c₁ with inBuf := (extend early c₁).inBuf.drop (i + 4) } :
            Connection) = extend early { c₁ with inBuf := c₁.inBuf.drop (i + 4) } := by
          rw [extend, extend]
          dsimp only [withInput]
          rw [List.drop_append_of_le_length hlength₁]
        rw [hdrop]
        rfl
      · rw [if_neg haccepted]
        exact (closeInternal_blind.bind fun _ => blind_pure false).commutes_extend early c₁

/-- What is left of a buffer that ends with its header block. -/
theorem handleHeaders_ends {i : Nat} (hfind : find (crlf ++ crlf) c.inBuf = some i)
    (hwhole : i + 4 = c.inBuf.length) (hstate : c.state = .readingHeaders) :
    Ends (handleHeaders w) c
      (fun goOn c' => if goOn then c'.inBuf = [] else c'.closed = true) fun _ _ => True := by
  rw [handleHeaders, ends_bind, ends_get, hfind]
  simp only [record, ends_bind, ends_modify]
  refine Ends.mono (processHeaders_input hstate (justTaken_concat rfl)) ?_ fun _ _ => id
  rintro accepted c' ⟨-, memory, hmemory, hinBuf⟩
  simp only [ends_ite, ends_bind, ends_modify, ends_pure]
  refine ⟨fun _ => ?_, fun _ => ?_⟩
  · rw [if_pos trivial]
    refine List.drop_eq_nil_of_le ?_
    rw [hinBuf, List.length_append, hmemory, ← List.length_append, List.take_append_drop]
    exact hwhole.ge
  · exact (closeInternal_sameInput c').mono (fun _ _ h => h.2) fun _ _ => False.elim

theorem handleNewDataFrom_of_empty (fuel : Nat) (hbody : BodyAwaited w c) (hempty : c.inBuf = []) :
    Ends (handleNewDataFrom w fuel) c (fun _ c' => c' = c) fun _ _ => True := by
  cases fuel with
  | zero => exact rfl
  | succ fuel =>
      rw [handleNewDataFrom, ends_bind, ends_get]
      cases hstate : c.state with
      | readingHeaders =>
          dsimp only
          have hfind : find (crlf ++ crlf) c.inBuf = none := by
            rw [hempty]
            rfl
          rw [ends_bind, handleHeaders, ends_bind, ends_get, hfind]
          dsimp only
          rw [if_neg (by simp [hempty])]
          exact rfl
      | readingWebSocketKey3 =>
          dsimp only
          rw [handleWebSocketKey3, ends_bind, ends_get, if_neg (by simp [hempty])]
          exact rfl
      | handlingHixieWebSocket =>
          dsimp only
          rw [handleHixieWebSocket, ends_bind, ends_get, if_neg (by simp [hempty])]
          exact rfl
      | handlingHybiWebSocket =>
          dsimp only
          rw [handleHybiWebSocket, ends_bind, ends_get, if_neg (by simp [hempty])]
          exact rfl
      | bufferingPostData =>
          dsimp only
          obtain ⟨request, hrequest, -, hlength, -⟩ := hbody hstate
          have hconsume : request.consumeContent c.inBuf = none := by
            rw [PageRequest.consumeContent, if_pos]
            rw [hempty]
            exact Nat.pos_of_ne_zero hlength
          rw [handleBufferingPostData, ends_bind, ends_get, theRequest, bind_assoc, ends_bind, ends_get,
            hrequest]
          dsimp only
          rw [pure_bind, hconsume]
          exact rfl
      | awaitingResponseBegin | sendingResponseBody | sendingResponseHeaders => exact rfl
      | invalid => exact trivial

/-- A read that ends with the header block of an upgrade. -/
structure Upgrade (w : World) (c : Connection) (header : Piece) (c₀ : Connection) : Prop where
  state : c.state = .readingHeaders
  block : find (crlf ++ crlf) (c.inBuf ++ header.val) =
    some ((c.inBuf ++ header.val).length - (crlf ++ crlf).length)
  run : (step w (.readable (.data header))).run c = .ok () c₀
  upgraded : c₀.state = .handlingHybiWebSocket
  opened : c₀.closing = false

theorem Upgrade.alive {header : Piece} {c₀ : Connection} (h : Upgrade w c header c₀) :
    c.alive = true := by
  by_contra hdead
  have hrun := h.run
  rw [step, EStateM.run_bind] at hrun
  dsimp only [EStateM.run_get] at hrun
  rw [if_neg hdead] at hrun
  cases hrun

theorem Upgrade.not_closed {header : Piece} {c₀ : Connection} (h : Upgrade w c header c₀) :
    c.closed = false := by
  by_contra hclosed
  rw [Bool.not_eq_false] at hclosed
  have hrun := h.run
  rw [step_data_of_closed h.alive hclosed] at hrun
  injection hrun with _ hc₀
  have hstate := h.upgraded
  rw [← hc₀, h.state] at hstate
  cases hstate

theorem Upgrade.early {header : Piece} {c₀ : Connection} (h : Upgrade w c header c₀)
    (early : Bytes) (first : Piece) (hfirst : first.val = header.val ++ early) :
    c₀.inBuf = [] ∧ c₀.alive = true ∧ (step w (.readable (.data first))).run c =
      (handleHybiWebSocket w).run (extend early c₀) := by
  have hrun := h.run
  rw [step_data_run h.alive h.not_closed] at hrun ⊢
  have hextended : withInput (c.bytesReceived + first.val.length) (c.inBuf ++ first.val) c =
      extend early (withInput (c.bytesReceived + header.val.length) (c.inBuf ++ header.val) c) := by
    rw [hfirst, extend, ← List.append_assoc, List.length_append, ← Nat.add_assoc]
    rfl
  rw [hextended]
  generalize hreceived : withInput (c.bytesReceived + header.val.length) (c.inBuf ++ header.val) c = c₁
    at hrun ⊢
  have hstate : c₁.state = .readingHeaders := by
    rw [← hreceived]
    exact h.state
  have hblock : find (crlf ++ crlf) c₁.inBuf = some (c₁.inBuf.length - 4) := by
    rw [← hreceived]
    exact h.block
  have hlength := length_of_find hblock (by simp [crlf])
  rw [show (crlf ++ crlf).length = 4 from rfl] at hlength
  rw [handleNewData, EStateM.run_bind] at hrun ⊢
  dsimp only [EStateM.run_get] at hrun ⊢
  rw [handleNewDataFrom, EStateM.run_bind] at hrun ⊢
  dsimp only [EStateM.run_get] at hrun ⊢
  rw [hstate] at hrun
  rw [show (extend early c₁).state = .readingHeaders from hstate]
  dsimp only at hrun ⊢
  rw [EStateM.run_bind] at hrun ⊢
  rw [handleHeaders_extend hstate hblock]
  have hends := handleHeaders_ends (w := w) hblock (by omega) hstate
  have htakes := handleHeaders_takes (w := w) hstate
  unfold Steps at htakes
  have hhandled := hends.and htakes
  unfold Ends at hhandled
  cases hheaders : (handleHeaders w).run c₁ with
  | error e c₂ =>
      rw [hheaders] at hrun
      cases hrun
  | ok goOn c₂ =>
      rw [hheaders] at hrun hhandled
      obtain ⟨hafter, hsteps⟩ := hhandled
      cases goOn with
      | false =>
          injection hrun with _ hc₀
          have hclosed : c₂.closed = true := hafter
          rw [hc₀, closed_of_closing h.opened] at hclosed
          cases hclosed
      | true =>
          have hempty : c₂.inBuf = [] := hafter
          obtain ⟨hbody, halive⟩ := invariant_of_steps (fun c' => BodyAwaited w c' ∧ c'.alive = c₁.alive)
            (fun _ _ hinv htake => ⟨hinv.1.move htake.1, htake.2.1.trans hinv.2⟩) hsteps
            ⟨fun hbuffering => by simp [hstate] at hbuffering, rfl⟩
          have hkept := handleNewDataFrom_of_empty c₁.inBuf.length hbody hempty
          unfold Ends at hkept
          rw [show (handleNewDataFrom w c₁.inBuf.length).run c₂ = .ok () c₀ from hrun] at hkept
          subst hkept
          refine ⟨hempty, ?_, ?_⟩
          · rw [halive, ← hreceived]
            exact h.alive
          · obtain ⟨fuel, hfuel⟩ : ∃ fuel, (extend early c₁).inBuf.length = fuel + 1 := by
              refine ⟨(extend early c₁).inBuf.length - 1, ?_⟩
              rw [extend]
              dsimp only [withInput]
              rw [List.length_append]
              omega
            rw [hfuel]
            exact handleNewDataFrom_of_state h.upgraded

/-! ### Two cuts -/

/-- A way of cutting a stream that follows a header block into reads. -/
structure Cut (header : Piece) (stream : Bytes) where
  /-- What arrives in the same read as the header block. -/
  early : Bytes
  first : Piece
  later : List Piece
  first_eq : first.val = header.val ++ early
  stream_eq : early ++ (later.map Subtype.val).flatten = stream

namespace Cut

variable {header : Piece} {stream : Bytes}

def events (cut : Cut header stream) : List Event := reads (cut.first :: cut.later)

/-- No read ends inside a length that follows another frame in the buffer. -/
def KeepsLengths (cut : Cut header stream) : Prop :=
  Connection.KeepsLengths [] (cut.early :: cut.later.map Subtype.val)

end Cut

/-- Both runs have a meaning, with the same calls of the handler and the same output. -/
def SameOutcome (result result' : Except Fault Connection) : Prop :=
  ∃ c c', result = .ok c ∧ result' = .ok c' ∧ c.calls = c'.calls ∧ c.out = c'.out

section TwoCuts

variable {header : Piece} {c₀ : Connection} {stream : Bytes}

theorem Upgrade.receiving (h : Upgrade w c header c₀) (hmodest : AllFrames Modest stream) :
    Receiving stream c₀ := by
  obtain ⟨hempty, halive, -⟩ := h.early [] header (List.append_nil _).symm
  refine ⟨h.upgraded, halive, fun _ => ⟨h.opened, ?_, ?_⟩⟩
  · rw [hempty]
    rfl
  · rwa [hempty]

theorem run_cut (hw : NeverCloses w) (h : Upgrade w c header c₀) (hmodest : AllFrames Modest stream)
    (cut : Cut header stream) (hquiet : UntroubledRun w cut.events c) :
    (cut.KeepsLengths → ∃ c', run w cut.events c = .ok c' ∧
      settle c' = absorb w stream (settle c₀)) ∧
    (¬ cut.KeepsLengths → run w cut.events c = .error .outOfRange) := by
  obtain ⟨hempty, -, hfirst⟩ := h.early cut.early cut.first cut.first_eq
  have hreceiving := h.receiving hmodest
  rw [← cut.stream_eq] at hreceiving
  have hopen := closed_of_closing h.opened
  constructor
  · intro hkeeps
    have hwhole := run_reads_of_keepsLengths hw hreceiving hopen hfirst hquiet
      (by rw [hempty]; exact hkeeps)
    rwa [cut.stream_eq] at hwhole
  · intro hcut
    exact run_reads_of_not_keepsLengths hw hreceiving hopen hfirst hquiet
      (by rw [hempty]; exact hcut)

/-- **Cuts of a stream.** Two ways of cutting a stream of frames behind an upgrade lead to the same calls
of the handler and the same output exactly if no read ends inside a length that follows another frame in
the buffer. -/
theorem run_sameOutcome_iff (hw : NeverCloses w) (h : Upgrade w c header c₀)
    (hmodest : AllFrames Modest stream) (cut cut' : Cut header stream)
    (hquiet : UntroubledRun w cut.events c) (hquiet' : UntroubledRun w cut'.events c) :
    SameOutcome (run w cut.events c) (run w cut'.events c) ↔
      cut.KeepsLengths ∧ cut'.KeepsLengths := by
  obtain ⟨hkeeps, hcut⟩ := run_cut hw h hmodest cut hquiet
  obtain ⟨hkeeps', hcut'⟩ := run_cut hw h hmodest cut' hquiet'
  constructor
  · rintro ⟨c₁, c₂, hrun, hrun', -⟩
    refine ⟨?_, ?_⟩
    · by_contra hnot
      rw [hcut hnot] at hrun
      cases hrun
    · by_contra hnot
      rw [hcut' hnot] at hrun'
      cases hrun'
  · rintro ⟨hwhole, hwhole'⟩
    obtain ⟨c₁, hrun, hsettle⟩ := hkeeps hwhole
    obtain ⟨c₂, hrun', hsettle'⟩ := hkeeps' hwhole'
    have hsame : settle c₁ = settle c₂ := hsettle.trans hsettle'.symm
    have hcalls : (settle c₁).calls = (settle c₂).calls := by rw [hsame]
    have hout : (settle c₁).out = (settle c₂).out := by rw [hsame]
    exact ⟨c₁, c₂, hrun, hrun', hcalls, hout⟩

/-- The upgrade of a server that has nothing to say. -/
def chatRequest : Piece :=
  ⟨ascii ("GET /chat HTTP/1.1\r\nConnection: Upgrade\r\nUpgrade: websocket\r\n"
    ++ "Sec-WebSocket-Version: 13\r\n\r\n"), by decide⟩

theorem exists_upgrade : ∃ c₀, Upgrade World.chat fresh chatRequest c₀ := by
  have hrun : (match (step World.chat (.readable (.data chatRequest))).run fresh with
      | .ok () c₀ => decide (c₀.state = .handlingHybiWebSocket ∧ c₀.closing = false)
      | .error _ _ => false) = true := by decide +kernel
  cases hstep : (step World.chat (.readable (.data chatRequest))).run fresh with
  | ok _ c₀ =>
      rw [hstep] at hrun
      obtain ⟨hstate, hopen⟩ := of_decide_eq_true hrun
      exact ⟨c₀, rfl, by decide +kernel, hstep, hstate, hopen⟩
  | error e c₀ =>
      rw [hstep] at hrun
      cases hrun

theorem neverCloses_chat : NeverCloses World.chat := by
  intro calls handler message
  simp [World.chat, World.plain]

theorem sameOutcome_of_decide {events events' : List Event}
    (h : (do
      let c₁ ← run w events c
      let c₂ ← run w events' c
      return decide (c₁.calls = c₂.calls ∧ c₁.out = c₂.out)) = .ok true) :
    SameOutcome (run w events c) (run w events' c) := by
  obtain ⟨c₁, hrun, h⟩ := ok_of_bind_eq_ok h
  obtain ⟨c₂, hrun', h⟩ := ok_of_bind_eq_ok h
  injection h with h
  obtain ⟨hcalls, hout⟩ := of_decide_eq_true h
  exact ⟨c₁, c₂, hrun, hrun', hcalls, hout⟩

/-- One message, in the read of the header block and in three reads of its own. -/
theorem run_sameOutcome_iff_message :
    ∃ cut cut' : Cut chatRequest [0x81, 2, 104, 105],
      cut.later = [] ∧ cut'.later.length = 3 ∧ cut.KeepsLengths ∧ cut'.KeepsLengths := by
  obtain ⟨c₀, hupgrade⟩ := exists_upgrade
  have hscan : scan [0x81, 2, 104, 105] = .frame _ 4 := rfl
  have hmodest : AllFrames Modest [0x81, 2, 104, 105] := by
    refine AllFrames.of_frame ?_ hscan (AllFrames.of_not_frame ?_ nofun)
    · unfold Modest
      decide +kernel
    · unfold Modest
      decide +kernel
  let cut : Cut chatRequest [0x81, 2, 104, 105] :=
    ⟨[0x81, 2, 104, 105], ⟨chatRequest.val ++ [0x81, 2, 104, 105], by decide⟩, [], rfl, rfl⟩
  let cut' : Cut chatRequest [0x81, 2, 104, 105] :=
    ⟨[], chatRequest, [⟨[0x81], by decide⟩, ⟨[2, 104], by decide⟩, ⟨[105], by decide⟩], rfl, rfl⟩
  have hquiet : UntroubledRun World.chat cut.events fresh := by decide +kernel
  have hquiet' : UntroubledRun World.chat cut'.events fresh := by decide +kernel
  have hsame : SameOutcome (run World.chat cut.events fresh) (run World.chat cut'.events fresh) :=
    sameOutcome_of_decide (by decide +kernel)
  have hkeep := (run_sameOutcome_iff neverCloses_chat hupgrade hmodest cut cut' hquiet hquiet').mp hsame
  exact ⟨cut, cut', rfl, rfl, hkeep⟩

/-- The length of a second frame, in one read with the first one and cut in two. -/
theorem not_sameOutcome_of_length_cut :
    ∃ (c₀ : Connection) (stream : Bytes) (cut cut' : Cut chatRequest stream),
      NeverCloses World.chat ∧ Upgrade World.chat fresh chatRequest c₀ ∧ AllFrames Modest stream ∧
        UntroubledRun World.chat cut.events fresh ∧ UntroubledRun World.chat cut'.events fresh ∧
        ¬ SameOutcome (run World.chat cut.events fresh) (run World.chat cut'.events fresh) := by
  obtain ⟨c₀, hupgrade⟩ := exists_upgrade
  have hscan : scan [0x81, 2, 104, 105, 0x81, 0x7e, 0, 0x7e] = .frame _ 4 := rfl
  have hmodest : AllFrames Modest [0x81, 2, 104, 105, 0x81, 0x7e, 0, 0x7e] := by
    refine AllFrames.of_frame ?_ hscan (AllFrames.of_not_frame ?_ nofun)
    · unfold Modest
      decide +kernel
    · unfold Modest
      decide +kernel
  refine ⟨c₀, [0x81, 2, 104, 105, 0x81, 0x7e, 0, 0x7e],
    ⟨[], chatRequest, [⟨[0x81, 2, 104, 105, 0x81, 0x7e, 0, 0x7e], by decide⟩], rfl, rfl⟩,
    ⟨[], chatRequest, [⟨[0x81, 2, 104, 105, 0x81, 0x7e], by decide⟩, ⟨[0, 0x7e], by decide⟩], rfl, rfl⟩,
    neverCloses_chat, hupgrade, hmodest, by decide +kernel, by decide +kernel, ?_⟩
  rintro ⟨c₁, c₂, -, hrun, -⟩
  have hfault : (match run World.chat (reads [chatRequest,
      ⟨[0x81, 2, 104, 105, 0x81, 0x7e], by decide⟩, ⟨[0, 0x7e], by decide⟩]) fresh with
      | .ok _ => false
      | .error f => f == .outOfRange) = true := by decide +kernel
  rw [show run World.chat (reads [chatRequest, ⟨[0x81, 2, 104, 105, 0x81, 0x7e], by decide⟩,
    ⟨[0, 0x7e], by decide⟩]) fresh = .ok c₂ from hrun] at hfault
  cases hfault

end TwoCuts

end Seasocks.Connection
