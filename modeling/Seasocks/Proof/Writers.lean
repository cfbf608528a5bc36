import Seasocks.Proof.Moves

/-!
# Writers that outlive their connection

A connection has one writer, which it gives to each of its responses in turn. The destructor detaches
it only when there is a response to cancel.
-/

namespace Seasocks.Connection

open Program Relation

variable {w : World} {c : Connection}

/-- The writer is inactive, and none of its methods does anything. -/
def Detached (w : World) (c : Connection) : Prop :=
  c.isActive = false ∧ ∀ call, (step w (.writer call)).run c = .ok () c

/-- A page handler answered a request with a response, which got the writer. -/
def Handed (w : World) (calls : List Entry) : Prop :=
  ∃ before request out after response, calls = before ++ ⟨.handle request, out⟩ :: after ∧
    w.handle before request = .response response

theorem detached_iff_writer : Detached w c ↔ c.writer = false := by
  constructor
  · intro h
    exact h.1
  · intro hwriter
    refine ⟨hwriter, fun call => ?_⟩
    rw [step, EStateM.run_bind, EStateM.run_get]
    simp [hwriter]

/-! ### The destructor -/

theorem cancelResponse_writer (c : Connection) :
    Ends cancelResponse c
      (fun _ c' => c'.alive = c.alive ∧ c'.writer = (c.writer && c.response.isNone)) fun _ _ => False := by
  cases hresponse : c.response with
  | none => simp [cancelResponse, hresponse]
  | some response => simp [cancelResponse, record, hresponse]

/-- The destructor leaves the writer attached unless there is a response to cancel. -/
theorem destroy_writer (c : Connection) :
    Ends (destroy w) c
      (fun _ c' => c'.alive = false ∧ c'.writer = (c.writer && c.response.isNone)) fun _ _ => False := by
  rw [destroy, ends_bind]
  refine (cancelResponse_writer c).mono (fun _ c₁ hcancel => ?_) fun _ _ => id
  obtain ⟨-, hwriter⟩ := hcancel
  rw [ends_bind, ends_get]
  cases c₁.webSocketHandler with
  | none =>
      simp only [ends_bind, ends_liftOut, ends_modify]
      exact After.of_forall fun _ _ => ⟨trivial, hwriter⟩
  | some handler =>
      dsimp only
      rw [ends_bind]
      refine (callHandler_ends _ _ c₁).mono (fun _ c₂ hsends => ?_) fun _ _ => id
      have hsame : c₂.writer = c₁.writer := (Sends.attached hsends).2
      simp only [ends_bind, ends_liftOut, ends_modify]
      exact After.of_forall fun _ _ => ⟨trivial, hsame.trans hwriter⟩

/-! ### Runs -/

/-- The writer of a connection that exists is attached. -/
theorem run_writer {events : List Event} (h : run w events fresh = .ok c) (halive : c.alive = true) :
    c.writer = true := by
  refine run_induction (fun c => c.alive = true → c.writer = true) ?_ h (fun _ => rfl) halive
  intro event c hc
  have hkeep : ∀ c', ReflTransGen (Take w) c c' → c'.alive = true → c'.writer = true := by
    intro c' htakes
    induction htakes with
    | refl => exact hc
    | tail _ htake ih =>
        intro halive
        rw [htake.2.2]
        exact ih (htake.2.1.symm.trans halive)
  by_cases hevent : event = .destroy
  · subst hevent
    rw [step, ends_bind, ends_get]
    dsimp only
    rw [ends_ite]
    refine ⟨fun _ => ?_, fun _ => hc⟩
    refine (destroy_writer c).mono (fun _ c' hdestroy halive => ?_) fun _ _ => False.elim
    rw [hdestroy.1] at halive
    cases halive
  · refine Ends.mono (step_takes hevent c) (fun _ c' htakes => hkeep c' htakes) fun e c' hends => ?_
    obtain ⟨c₁, htakes, hlast⟩ := hends
    have hc₁ := hkeep c₁ htakes
    cases hlast with
    | fault f => exact hc₁
    | range e path hstate hrequest hcalls hrange => exact hc₁

/-- Nothing but calls of a detached writer can follow the destructor. -/
theorem run_dead {events : List Event} {c' : Connection} (h : run w events c = .ok c')
    (hdead : c.alive = false) : c' = c := by
  refine run_induction (fun c' => c' = c) (fun event c₁ hc₁ => ?_) h rfl
  subst hc₁
  rw [step, ends_bind, ends_get]
  cases event with
  | writer call =>
      simp only [hdead]
      split
      · rfl
      · rfl
  | _ =>
      simp only [hdead]
      rfl

theorem run_destroyed {events : List Event} {c' : Connection}
    (h : run w (.destroy :: events) c = .ok c') :
    c.alive = true ∧ c'.alive = false ∧ c'.writer = (c.writer && c.response.isNone) := by
  have hends : Ends (step w .destroy) c
      (fun _ c' => c.alive = true ∧ c'.alive = false ∧ c'.writer = (c.writer && c.response.isNone))
      fun e _ => ∃ f, e = .fault f := by
    rw [step, ends_bind, ends_get]
    dsimp only
    rw [ends_ite]
    refine ⟨fun halive => ?_, fun _ => ⟨.badPointer, rfl⟩⟩
    exact (destroy_writer c).mono (fun _ _ hc' => ⟨halive, hc'⟩) fun _ _ => False.elim
  unfold Ends at hends
  rw [run] at h
  cases hrun : (step w .destroy).run c with
  | ok result c₁ =>
      rw [hrun] at hends h
      rwa [run_dead h hends.2.1]
  | error e c₁ =>
      rw [hrun] at hends h
      obtain ⟨f, rfl⟩ := hends
      injection h

/-- **Writers behind the destructor.** Every writer that was handed out is detached exactly if a
response is pending when the connection is destroyed. -/
theorem detached_iff {events after : List Event} {c' : Connection} (h : run w events fresh = .ok c)
    (hdestroy : run w (.destroy :: after) c = .ok c') :
    (Handed w c.calls → Detached w c') ↔ c.response.isSome = true ∨ ¬ Handed w c.calls := by
  obtain ⟨halive, -, hwriter⟩ := run_destroyed hdestroy
  rw [run_writer h halive, Bool.true_and] at hwriter
  rw [detached_iff_writer, hwriter, imp_iff_or_not]
  cases c.response <;> simp

/-- A response that is still pending is cancelled. -/
theorem detached_iff_pending :
    ∃ c c', run (.pages ⟨[]⟩) [.readable (.data ⟨ascii "GET / HTTP/1.1\r\n\r\n", by decide⟩)] fresh
        = .ok c ∧
      run (.pages ⟨[]⟩) [.destroy] c = .ok c' ∧
      ((Handed (.pages ⟨[]⟩) c.calls → Detached (.pages ⟨[]⟩) c') ↔
        c.response.isSome = true ∨ ¬ Handed (.pages ⟨[]⟩) c.calls) := by
  have hrun : (do
      let c ← run (.pages ⟨[]⟩)
        [.readable (.data ⟨ascii "GET / HTTP/1.1\r\n\r\n", by decide⟩)] fresh
      let c' ← run (.pages ⟨[]⟩) [.destroy] c
      return c'.writer) = .ok false := by decide +kernel
  obtain ⟨c, hc, hrun⟩ := ok_of_bind_eq_ok hrun
  obtain ⟨c', hc', -⟩ := ok_of_bind_eq_ok hrun
  exact ⟨c, c', hc, hc', detached_iff hc hc'⟩

/-- A response that has finished before the connection goes away keeps an active writer. -/
theorem not_detached_of_finished :
    ∃ c c', run (.pages ⟨[.begin .ok .raw, .finish true]⟩)
        [.readable (.data ⟨ascii "GET / HTTP/1.1\r\n\r\n", by decide⟩)] fresh = .ok c ∧
      run (.pages ⟨[.begin .ok .raw, .finish true]⟩) [.destroy] c = .ok c' ∧
      Handed (.pages ⟨[.begin .ok .raw, .finish true]⟩) c.calls ∧
      ¬ Detached (.pages ⟨[.begin .ok .raw, .finish true]⟩) c' := by
  have hrun : (do
      let c ← run (.pages ⟨[.begin .ok .raw, .finish true]⟩)
        [.readable (.data ⟨ascii "GET / HTTP/1.1\r\n\r\n", by decide⟩)] fresh
      let c' ← run (.pages ⟨[.begin .ok .raw, .finish true]⟩) [.destroy] c
      return (c.calls.map Entry.call, c'.writer)) =
      .ok ([.headers (ascii "GET / HTTP/1.1\r\n\r\n"),
        .handle (PageRequest.create (ascii "/") .get HeaderMap.empty)], true) := by decide +kernel
  obtain ⟨c, hc, hrun⟩ := ok_of_bind_eq_ok hrun
  obtain ⟨c', hc', hrun⟩ := ok_of_bind_eq_ok hrun
  injection hrun with hrun
  obtain ⟨hcalls, hwriter⟩ := Prod.mk.inj hrun
  refine ⟨c, c', hc, hc', ?_, ?_⟩
  · obtain ⟨before, rest, hsplit, -, hrest⟩ := List.map_eq_append_iff.mp
      (show c.calls.map Entry.call = [_] ++ [_] from hcalls)
    obtain ⟨entry, rest, rfl, hentry, -⟩ := List.map_eq_cons_iff.mp hrest
    obtain ⟨call, out⟩ := entry
    subst hentry
    exact ⟨before, _, out, rest, _, hsplit, rfl⟩
  · rw [detached_iff_writer, hwriter]
    simp

end Seasocks.Connection
