import Seasocks.Proof.Registry

/-!
# Descriptors of connections

Every descriptor that `accept` returns is closed exactly once, unless it could not be added to the
interest list: then the destructor of its connection closes it, and `handleAccept` closes it again.
-/

namespace Seasocks.Registry

open ResourceLedger Relation

variable {s s' : Registry}

theorem Reachable.step (h : Reachable s) (hstep : Step s s') : Reachable s' := by
  obtain ⟨timeout, hsteps⟩ := h
  exact ⟨timeout, hsteps.tail hstep⟩

theorem not_atMostOnce_of_failed (h : Reachable s) (hfailed : .epollAdd false ∈ s.history) :
    ¬ AtMostOnce (fdActions s.history) := by
  obtain ⟨timeout, hsteps⟩ := h
  induction hsteps with
  | refl => cases hfailed
  | tail _ hstep ih =>
      obtain ⟨gone, hchange⟩ := hstep.change
      obtain ⟨events, hhistory, hclosed⟩ := hchange.history
      rw [hhistory, List.mem_append] at hfailed
      rw [hhistory, fdActions_append]
      rcases hfailed with hbefore | hnow
      · exact fun honce => ih hbefore honce.of_append
      · obtain ⟨fd, hactions⟩ := hclosed hnow
        rw [hactions]
        exact not_atMostOnce_of_twice

/-- No descriptor has been closed twice, and behind `shutdown` all have been closed. -/
def DescriptorsClosed (s : Registry) : Prop :=
  AtMostOnce (fdActions s.history) ∧ (s.phase = .down → ExactlyOnce (fdActions s.history))

/-- **Descriptors of connections.** In every state of every run the descriptors that `accept` has returned
are closed at most once, and all of them exactly once by the end of `shutdown`, if and only if no
`EPOLL_CTL_ADD` has failed. -/
theorem descriptorsClosed_iff (h : Reachable s) : DescriptorsClosed s ↔ .epollAdd false ∉ s.history := by
  constructor
  · exact fun hclosed hfailed => not_atMostOnce_of_failed h hfailed hclosed.1
  · intro hadded
    have hledger := (consistent_of_reachable h).fds hadded
    refine ⟨hledger.atMostOnce, fun hdown => ?_⟩
    have hnone : owned s.fdOf = ∅ := by
      ext fd
      simp [owned, fdOf_of_down h hdown]
    exact Ledger.exactlyOnce (hnone ▸ hledger)

/-! ### Two runs -/

def readable : EventBits := ⟨true, false, false, false, false⟩

/-- A server that has been told of a client. -/
theorem reachable_knocked : Reachable
    { fresh 30 with listenSock := true, phase := .dispatching [.listenSock readable] [] } := by
  have hlistening := Reachable.step ⟨30, .refl⟩ (.startListening (fresh 30) (Or.inl rfl))
  have hprocessing := hlistening.step (.processEventQueue _ 0 [] rfl rfl rfl)
  have hpolling := hprocessing.step (.processed _ rfl)
  exact hpolling.step (.ready _ _ rfl ⟨fun _ _ => rfl, List.nil_subperm, by decide⟩)

/-- A client that is served until the server shuts down. -/
theorem descriptorsClosed_served : ∃ s, Reachable s ∧ s.phase = .down ∧
    fdActions s.history = [.acquire 5, .release 5] ∧ DescriptorsClosed s := by
  have haccepted := reachable_knocked.step
    (.accept _ _ readable [] [] (some 5) 4096 true true true 0 rfl rfl (by simp [fresh]) rfl rfl)
  have hidle := (haccepted.step (.dispatched _ [] rfl)).step (.deleted _ rfl)
  have hshutting := hidle.step (.shutdown _ (Or.inl rfl))
  have hdeleted := hshutting.step (.disconnect _ _ 4096 0 [] true rfl rfl rfl)
  have hdown := hdeleted.step (.closed _ rfl rfl)
  exact ⟨_, hdown, rfl, rfl, (descriptorsClosed_iff hdown).mpr (by decide)⟩

/-- A client that `epoll` has no room for. -/
theorem not_descriptorsClosed_of_failed : ∃ s, Reachable s ∧
    s.history = [.accept 5, .new 4096, .epollAdd false, .epollDel false, .close 5, .delete 4096,
      .close 5] ∧ ¬ DescriptorsClosed s := by
  have haccepted := reachable_knocked.step
    (.accept _ _ readable [] [] (some 5) 4096 true false false 0 rfl rfl (by simp [fresh]) rfl rfl)
  refine ⟨_, haccepted, rfl, fun hclosed => ?_⟩
  have htwice : AtMostOnce ([] ++ [.acquire 5, .release 5, .release 5]) := hclosed.1
  exact not_atMostOnce_of_twice htwice

end Seasocks.Registry
