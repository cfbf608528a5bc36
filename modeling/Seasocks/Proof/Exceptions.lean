import Mathlib.Data.List.Chain
import Seasocks.Proof.Moves

/-!
# Exceptions

The conversions of client text sit inside `try` blocks, but for those of a `Range` header. An exception
leaves `handleDataReadyForRead` when such a header is not a list of numbers and the file is there.
-/

namespace Seasocks.Connection

open Program Relation

variable {w : World} {c : Connection}

/-! ### The requests behind the files -/

def isOpenFile : Call → Bool
  | .openFile _ _ => true
  | _ => false

/-- A file that could be opened is not opened for a request with a bad range. -/
def RangeAccepted (entry opening : Entry) : Prop :=
  ∀ request path, entry.call = .handle request → opening.call = .openFile path true →
    ¬ BadRange (request.getHeader (ascii "Range"))

def RangesAccepted (calls : List Entry) : Prop := calls.IsChain RangeAccepted

theorem RangesAccepted.append {calls calls' : List Entry} (h : RangesAccepted calls)
    (hother : ∀ entry ∈ calls', isOpenFile entry.call = false) : RangesAccepted (calls ++ calls') := by
  have haccepted : ∀ entry, ∀ entry' ∈ calls', RangeAccepted entry entry' := by
    intro entry entry' hentry' request path _ hopening
    have hnot := hother entry' hentry'
    rw [hopening] at hnot
    cases hnot
  refine List.isChain_append.mpr ⟨h, ?_, fun entry _ entry' hentry' => ?_⟩
  · exact List.Pairwise.isChain
      (List.pairwise_of_forall_mem_list fun entry _ entry' => haccepted entry entry')
  · exact haccepted entry entry' (List.mem_of_mem_head? hentry')

theorem RangesAccepted.record {calls : List Entry} {call : Call} {out : Output}
    (h : RangesAccepted calls) (hother : isOpenFile call = false) :
    RangesAccepted (calls ++ [⟨call, out⟩]) := h.append (by simpa using hother)

/-- The opening of a file behind the request it is for. -/
theorem rangesAccepted_openFile {before : List Entry} {request : PageRequest} {path : Bytes}
    {opened : Bool} {out out' : Output} :
    RangesAccepted (before ++ [⟨.handle request, out⟩] ++ [⟨.openFile path opened, out'⟩]) ↔
      RangesAccepted (before ++ [⟨.handle request, out⟩]) ∧
      (opened = true → ¬ BadRange (request.getHeader (ascii "Range"))) := by
  rw [RangesAccepted, RangesAccepted, List.isChain_append]
  refine and_congr_right fun _ => ⟨fun h hopened => ?_, fun h => ⟨List.isChain_singleton _, ?_⟩⟩
  · exact h.2 ⟨.handle request, out⟩ (by simp) ⟨.openFile path opened, out'⟩ (by simp) request path
      rfl (by rw [hopened])
  · intro entry hentry opening hopening request' path' hrequest hpath
    simp only [List.getLast?_append, List.getLast?_singleton, Option.some_or, Option.mem_def,
      Option.some.injEq] at hentry
    simp only [List.head?_cons, Option.mem_def, Option.some.injEq] at hopening
    subst hentry hopening
    injection hrequest with hrequest
    injection hpath with _ hopened
    exact hrequest ▸ h hopened

theorem Sends.rangesAccepted {c c' : Connection} (hsends : Sends w c c')
    (h : RangesAccepted c.calls) : RangesAccepted c'.calls := by
  obtain ⟨out, calls, rfl, -, hcalls⟩ := hsends.frame
  refine h.append fun entry hentry => ?_
  obtain ⟨input, hinput⟩ := hcalls entry hentry
  rw [hinput]
  rfl

theorem Answer.rangesAccepted {c' : Connection} (hstep : Answer w c c') (h : RangesAccepted c.calls) :
    RangesAccepted c'.calls := by
  cases hstep with
  | write hwrite =>
      cases hwrite with
      | send hsend => exact Sends.rangesAccepted (ReflTransGen.single hsend) h
      | _ => exact h
  | handle hstate hrequest htaken => exact h.record rfl
  | openFile path opened hstate hrequest hcalls hrange =>
      rw [hcalls] at h
      dsimp only
      rw [hcalls]
      exact rangesAccepted_openFile.mpr ⟨h, hrange⟩
  | connect hstate hhandler hverb hcalls hout hsends => exact hsends.rangesAccepted (h.record rfl)
  | setHandler | respond | awaitKey => exact h

theorem Serve.rangesAccepted {c' : Connection} (hstep : Serve w c c') (h : RangesAccepted c.calls) :
    RangesAccepted c'.calls := by
  cases hstep with
  | answer hanswer => exact hanswer.rangesAccepted h
  | initialise => exact h.record rfl
  | create | buffer => exact h

theorem Move.rangesAccepted {c' : Connection} (hstep : Move w c c') (h : RangesAccepted c.calls) :
    RangesAccepted c'.calls := by
  cases hstep with
  | serve hserve => exact hserve.rangesAccepted h
  | data hstate hhandler htaken hcall =>
      obtain ⟨message, rfl | rfl⟩ := hcall <;> exact h.record rfl
  | disconnect halive hresponse hhandler hsends hout => exact hsends.rangesAccepted (h.record rfl)
  | headers | content | key | connect | message | frame | inflate | cancel => exact h.record rfl
  | overwrite | drop | connectNobody | receive | enlarge | vanish => exact h

theorem Thrown.not_rangesAccepted {c' : Connection} {e : LogicError}
    (h : Thrown (.exception e) c c') : ¬ RangesAccepted c'.calls := by
  cases h with
  | range e path hstate hrequest hcalls hrange =>
      dsimp only
      rw [hcalls]
      exact fun haccepted => (rangesAccepted_openFile.mp haccepted).2 rfl hrange

/-! ### Runs -/

/-- What leaves a step before its end. -/
inductive Escape where
  | exception (e : LogicError)
  /-- The decoder has read a length or a payload past the end of its buffer, and asks for memory by it. -/
  | overRead
deriving DecidableEq, Repr

/-- What leaves the steps of a run. A step that loses its meaning while frames are taken has lost it in the
decoder; anywhere else nothing is thrown for that. -/
def escapes (w : World) : List Event → Connection → List Escape
  | [], _ => []
  | event :: events, c =>
      match (step w event).run c with
      | .ok () c => escapes w events c
      | .error (.exception e) c => .exception e :: escapes w events c
      | .error (.fault _) c' =>
          if c.alive ∧ c'.state = .handlingHybiWebSocket then [.overRead] else []

theorem run_calls_grow {events : List Event} {c' : Connection} (h : run w events c = .ok c') :
    c.calls <+: c'.calls :=
  run_invariant (fun c' => c.calls <+: c'.calls) (fun _ _ hbegins hmove => hbegins.trans hmove.calls_grow)
    (fun _ _ _ hbegins hthrown => hbegins.trans hthrown.calls_grow) h List.prefix_rfl

theorem RangesAccepted.of_isPrefix {calls calls' : List Entry} (h : RangesAccepted calls')
    (hbegins : calls <+: calls') : RangesAccepted calls := by
  obtain ⟨rest, rfl⟩ := hbegins
  exact List.IsChain.left_of_append h

theorem escapes_eq_nil_iff {events : List Event} {c' : Connection} (h : run w events c = .ok c')
    (hc : RangesAccepted c.calls) : escapes w events c = [] ↔ RangesAccepted c'.calls := by
  induction events generalizing c with
  | nil =>
      injection h with h
      exact iff_of_true rfl (h ▸ hc)
  | cons event events ih =>
      have hstep := step_moves (w := w) event c
      unfold Steps Ends at hstep
      rw [run] at h
      rw [escapes]
      cases hrun : (step w event).run c with
      | ok result c₁ =>
          rw [hrun] at hstep h
          exact ih h (invariant_of_steps (fun c => RangesAccepted c.calls)
            (fun _ _ haccepted hmove => Move.rangesAccepted hmove haccepted) hstep hc)
      | error e c₁ =>
          rw [hrun] at hstep h
          cases e with
          | fault f => injection h
          | exception e =>
              obtain ⟨c₂, -, hthrown⟩ := hstep
              refine iff_of_false (List.cons_ne_nil _ _) fun haccepted => ?_
              exact hthrown.not_rangesAccepted (haccepted.of_isPrefix (run_calls_grow h))

theorem run_cons_ok {event : Event} {events : List Event} {c₁ : Connection}
    (h : (step w event).run c = .ok () c₁) : run w (event :: events) c = run w events c₁ := by
  rw [run, h]

/-- Every event finds the connection in a state with `cond`. -/
def Throughout (w : World) (cond : Event → Connection → Prop) (events : List Event)
    (c : Connection) : Prop :=
  ∀ before event after c', events = before ++ event :: after → run w before c = .ok c' → cond event c'

theorem Throughout.tail {cond : Event → Connection → Prop} {event : Event} {events : List Event}
    {c₁ : Connection} (h : Throughout w cond (event :: events) c)
    (hstep : (step w event).run c = .ok () c₁) : Throughout w cond events c₁ := by
  intro before event' after c' hsplit hbefore
  refine h (event :: before) event' after c' ?_ ?_
  · rw [hsplit, List.cons_append]
  · rwa [run_cons_ok hstep]

theorem throughout_cons_iff {cond : Event → Connection → Prop} {event : Event} {events : List Event}
    {c₁ : Connection} (hstep : (step w event).run c = .ok () c₁) :
    Throughout w cond (event :: events) c ↔ cond event c ∧ Throughout w cond events c₁ := by
  constructor
  · exact fun h => ⟨h [] event events c rfl rfl, h.tail hstep⟩
  · rintro ⟨hcond, h⟩ before event' after c' hsplit hrun
    cases before with
    | nil =>
        injection hrun with hrun
        rw [List.nil_append, List.cons.injEq] at hsplit
        rw [← hsplit.1, ← hrun]
        exact hcond
    | cons first before =>
        rw [List.cons_append, List.cons.injEq] at hsplit
        obtain ⟨rfl, hsplit⟩ := hsplit
        rw [run_cons_ok hstep] at hrun
        exact h before event' after c' hsplit hrun

/-- `Throughout` for a condition that can be evaluated. -/
def everyEvent (w : World) (cond : Event → Connection → Bool) : List Event → Connection → Bool
  | [], _ => true
  | event :: events, c =>
      cond event c && match (step w event).run c with
        | .ok () c | .error (.exception _) c => everyEvent w cond events c
        | .error (.fault _) _ => true

theorem throughout_of_everyEvent {cond : Event → Connection → Bool} {events : List Event}
    (h : everyEvent w cond events c = true) : Throughout w (fun event c => cond event c = true) events c := by
  induction events generalizing c with
  | nil =>
      intro before event after c' hsplit
      simp at hsplit
  | cons event events ih =>
      rw [everyEvent, Bool.and_eq_true] at h
      obtain ⟨hcond, h⟩ := h
      intro before event' after c' hsplit hrun
      cases before with
      | nil =>
          injection hrun with hrun
          rw [List.nil_append, List.cons.injEq] at hsplit
          rw [← hsplit.1, ← hrun]
          exact hcond
      | cons first before =>
          rw [List.cons_append, List.cons.injEq] at hsplit
          obtain ⟨rfl, hsplit⟩ := hsplit
          rw [run] at hrun
          cases hstep : (step w event).run c with
          | ok result c₁ =>
              rw [hstep] at h hrun
              exact ih h before event' after c' hsplit hrun
          | error e c₁ =>
              rw [hstep] at h hrun
              cases e with
              | fault f => cases hrun
              | exception e => exact ih h before event' after c' hsplit hrun

/-- What every event that finds `cond` preserves, a run that nothing leaves preserves. -/
theorem run_throughout {cond : Event → Connection → Prop} (inv : Connection → Prop)
    (hstep : ∀ event c, inv c → cond event c →
      Ends (step w event) c (fun _ c' => inv c') fun _ _ => True)
    {events : List Event} {c' : Connection} (h : run w events c = .ok c') (hc : inv c)
    (hcond : Throughout w cond events c) (hnone : escapes w events c = []) : inv c' := by
  induction events generalizing c with
  | nil =>
      injection h with h
      exact h ▸ hc
  | cons event events ih =>
      have hends := hstep event c hc (hcond [] event events c rfl rfl)
      unfold Ends at hends
      rw [escapes] at hnone
      cases hrun : (step w event).run c with
      | ok result c₁ =>
          rw [hrun] at hends hnone
          rw [run_cons_ok hrun] at h
          exact ih h hends (hcond.tail hrun) hnone
      | error e c₁ =>
          rw [run, hrun] at h
          rw [hrun] at hnone
          cases e with
          | exception e => cases hnone
          | fault f => cases h

end Seasocks.Connection
