import Seasocks.Proof.Descriptors

/-!
# Batches of events

As long as connections can be removed from the interest list, the connections a batch of events is
about, and those still to be deleted, exist and are all different.
-/

namespace Seasocks.Registry

open ResourceLedger Relation

variable {s s' : Registry}

/-- The connections the rest of the current step is about. -/
def Phase.pending : Phase → List Pointer
  | .removing toRemove => toRemove
  | .dispatching events toBeDeleted => toBeDeleted ++ pointers events
  | .deleting toBeDeleted => toBeDeleted
  | .idle | .polling | .shuttingDown | .down => []

/-! ### The interest list -/

/-- An interest list of connections that exist, each of them once. -/
structure Interested (s : Registry) : Prop where
  interest : ∀ entry ∈ s.interest, s.fdOf entry.2 = some entry.1
  once : s.interest.Nodup

theorem Interested.same (h : Interested s) (hsame : SameBooks s s') : Interested s' where
  interest := by
    rw [hsame.interest, hsame.fdOf]
    exact h.interest
  once := hsame.interest ▸ h.once

/-- The connections of the interest list are all different. -/
theorem Interested.nodup (h : Interested s) : (s.interest.map Prod.snd).Nodup := by
  refine h.once.map_on fun entry hentry entry' hentry' hsame => ?_
  have hfd := h.interest entry hentry
  rw [hsame, h.interest entry' hentry'] at hfd
  injection hfd with hfd
  exact Prod.ext hfd.symm hsame

theorem Interested.change {gone : Option Pointer} (h : Interested s) (hchange : Change s s' gone)
    (hremoved : .epollDel false ∉ s'.history) : Interested s' := by
  cases hchange with
  | same hsame => exact h.same hsame
  | refuse fd hfd hsame =>
      refine Interested.same ⟨?_, ?_⟩ hsame
      · exact h.interest
      · exact h.once
  | delete connection fd removed hfd hsame =>
      cases removed with
      | false =>
          rw [hsame.history] at hremoved
          simp [without] at hremoved
      | true =>
          refine Interested.same ⟨fun entry hentry => ?_, h.once.erase (fd, connection)⟩ hsame
          have hmem := h.once.mem_erase_iff.mp hentry
          have hother : entry.2 ≠ connection := by
            intro heq
            have hentryFd := h.interest entry hmem.2
            rw [heq, hfd] at hentryFd
            injection hentryFd with hentryFd
            exact hmem.1 (Prod.ext hentryFd.symm heq)
          rw [fdOf_without, Function.update_of_ne hother]
          exact h.interest entry hmem.2
  | accept connection fd now hfd hnew hsame =>
      have hnone : s.fdOf connection = none := by rw [fdOf, hnew]; rfl
      have hold : ∀ entry ∈ s.interest, entry.2 ≠ connection := by
        intro entry hentry heq
        have hentryFd := h.interest entry hentry
        rw [heq, hnone] at hentryFd
        cases hentryFd
      refine Interested.same ⟨fun entry hentry => ?_, ?_⟩ hsame
      · rw [fdOf_withNew]
        rcases List.mem_cons.mp hentry with rfl | hentry
        · rw [Function.update_self]
        · rw [Function.update_of_ne (hold entry hentry)]
          exact h.interest entry hentry
      · exact List.nodup_cons.mpr ⟨fun hmem => hold _ hmem rfl, h.once⟩
  | discard connection fd removed hfd hnew hsame =>
      cases removed with
      | false =>
          rw [hsame.history] at hremoved
          simp at hremoved
      | true =>
          refine Interested.same ⟨fun entry hentry => ?_, h.once.erase (fd, connection)⟩ hsame
          exact h.interest entry (List.mem_of_mem_erase hentry)

/-! ### The connections of a batch -/

/-- Connections that exist and are all different. -/
structure Lively (fds : Pointer → Option Descriptor) (connections : List Pointer) : Prop where
  nodup : connections.Nodup
  existing : ∀ connection ∈ connections, fds connection ≠ none

theorem lively_nil (fds : Pointer → Option Descriptor) : Lively fds [] := ⟨List.nodup_nil, nofun⟩

theorem Lively.sublist {fds : Pointer → Option Descriptor} {connections connections' : List Pointer}
    (h : Lively fds connections) (hsub : connections'.Sublist connections) :
    Lively fds connections' where
  nodup := h.nodup.sublist hsub
  existing connection hmem := h.existing connection (hsub.subset hmem)

/-- A connection that exists and is not destroyed goes on existing. -/
theorem Change.fdOf {gone : Option Pointer} (h : Change s s' gone) {connection : Pointer}
    (hkept : connection ∉ gone) (hexists : s.fdOf connection ≠ none) : s'.fdOf connection ≠ none := by
  cases h with
  | same hsame => rwa [hsame.fdOf]
  | refuse fd hfd hsame =>
      rw [hsame.fdOf]
      exact hexists
  | discard other fd removed hfd hnew hsame =>
      rw [hsame.fdOf]
      exact hexists
  | delete other fd removed hfd hsame =>
      have hne : connection ≠ other := fun heq => hkept (heq ▸ rfl)
      rwa [hsame.fdOf, fdOf_without, Function.update_of_ne hne]
  | accept other fd now hfd hnew hsame =>
      rw [hsame.fdOf, fdOf_withNew]
      by_cases heq : connection = other
      · rw [heq, Function.update_self]
        exact Option.some_ne_none fd
      · rwa [Function.update_of_ne heq]

theorem Lively.change {gone : Option Pointer} {connections : List Pointer}
    (h : Lively s.fdOf connections) (hchange : Change s s' gone)
    (hkept : ∀ connection ∈ gone, connection ∉ connections) : Lively s'.fdOf connections where
  nodup := h.nodup
  existing connection hmem :=
    hchange.fdOf (fun hgone => hkept connection hgone hmem) (h.existing connection hmem)

/-- Behind the first connection of a list, which is destroyed. -/
theorem Lively.delete {connection : Pointer} {connections : List Pointer} {removed : Bool}
    (h : Lively s.fdOf (connection :: connections))
    (hdelete : deleteConnection connection removed s = .ok s') : Lively s'.fdOf connections := by
  have hrest := h.sublist (List.sublist_cons_self connection connections)
  refine hrest.change (deleteConnection_change hdelete) fun gone hgone hmem => ?_
  obtain rfl := Option.mem_some_iff.mp hgone
  exact (List.nodup_cons.mp h.nodup).1 hmem

theorem lameAmong_sublist {now : Int} {connections : List (Pointer × Int)} {toRemove : List Pointer}
    (h : lameAmong s now connections = .ok toRemove) :
    toRemove.Sublist (connections.map Prod.fst) := by
  induction connections generalizing toRemove with
  | nil =>
      injection h with h
      exact h ▸ List.Sublist.refl _
  | cons entry connections ih =>
      rw [lameAmong] at h
      cases hobject : s.objects entry.1 with
      | none =>
          rw [hobject] at h
          cases h
      | some object =>
          rw [hobject] at h
          obtain ⟨rest, hrest, h⟩ := ok_of_bind_eq_ok h
          have hsublist := ih hrest
          split_ifs at h
          · injection h with h
            exact h ▸ hsublist.cons_cons entry.1
          · injection h with h
            exact h ▸ hsublist.cons entry.1

theorem lameConnections_sublist {now : Int} {toRemove : List Pointer}
    (h : lameConnections now s = .ok toRemove) : toRemove.Sublist (s.connections.map Prod.fst) := by
  rw [lameConnections] at h
  split_ifs at h
  · injection h with h
    exact h ▸ List.nil_sublist _
  · exact lameAmong_sublist h

theorem Interested.reports (h : Interested s) {events : List PolledEvent} (hevents : Reports s events) :
    Lively s.fdOf (pointers events) := by
  obtain ⟨watched, hperm, hsub⟩ := hevents.watched
  refine ⟨hperm.nodup_iff.mp (h.nodup.sublist hsub), fun connection hmem => ?_⟩
  obtain ⟨entry, hentry, rfl⟩ := List.mem_map.mp (hsub.subset (hperm.mem_iff.mpr hmem))
  rw [h.interest entry hentry]
  exact Option.some_ne_none entry.1

/-- What a step leaves to be done is about connections that exist. -/
theorem Step.lively (h : Step s s') (hs : Consistent s) (hinterested : Interested s)
    (hlively : Lively s.fdOf s.phase.pending) : Lively s'.fdOf s'.phase.pending := by
  cases h with
  | processEventQueue now toRemove hphase hlistenSock hlame =>
      have hsub := lameConnections_sublist hlame
      exact ⟨hs.nodup.sublist hsub, fun connection hmem =>
        (hs.registered connection).mp (hsub.subset hmem)⟩
  | removeLame s' connection toRemove removed hphase hdelete =>
      rw [hphase] at hlively
      have hrest : Lively s'.fdOf toRemove := hlively.delete hdelete
      exact hrest
  | ready events hphase hevents => exact hinterested.reports hevents
  | accept s' bits events toBeDeleted accepted newConnection configured added removed now hphase hbits
      hfd hnew haccept =>
      rw [hphase] at hlively
      have hkept : Lively s'.fdOf (toBeDeleted ++ pointers events) :=
        hlively.change (handleAccept_change hfd hnew haccept) nofun
      exact hkept
  | handlePipe bits events toBeDeleted hphase hbits =>
      rw [hphase] at hlively
      exact hlively
  | unexpected event bits events toBeDeleted hphase hevent hbits =>
      rw [hphase] at hlively
      exact hlively.sublist (List.sublist_append_left _ _)
  | connection s' connection bits events toBeDeleted received close hphase hhandle =>
      rw [hphase] at hlively
      have hkept : Lively s'.fdOf (toBeDeleted ++ connection :: pointers events) :=
        hlively.change (.same (handleConnectionEvents_sameBooks hhandle).2) nofun
      cases close with
      | true =>
          rw [List.append_cons] at hkept
          exact hkept
      | false =>
          exact hkept.sublist ((List.sublist_cons_self _ _).append_left toBeDeleted)
  | dispatched toBeDeleted hphase =>
      rw [hphase] at hlively
      exact hlively.sublist (List.sublist_append_left _ _)
  | delete s' connection toBeDeleted removed hphase hknown hdelete =>
      rw [hphase] at hlively
      have hrest : Lively s'.fdOf toBeDeleted := hlively.delete hdelete
      exact hrest
  | disconnect s' connection connected connections removed hphase hconnections hdelete =>
      obtain ⟨fd, -, rfl⟩ := deleteConnection_eq hdelete
      have hnone : (without connection fd removed s).phase.pending = [] := by
        rw [without, hphase]
        rfl
      rw [hnone]
      exact lively_nil _
  | _ => exact lively_nil _

/-! ### Every run -/

/-- What holds as long as connections can be removed from the interest list. -/
theorem interested_of_reachable (h : Reachable s) (hremoved : .epollDel false ∉ s.history) :
    Interested s ∧ Lively s.fdOf s.phase.pending := by
  obtain ⟨timeout, hsteps⟩ := h
  induction hsteps with
  | refl => exact ⟨⟨nofun, List.nodup_nil⟩, lively_nil _⟩
  | tail hbefore hstep ih =>
      obtain ⟨gone, hchange⟩ := hstep.change
      obtain ⟨hinterested, hlively⟩ := ih fun hmem => hremoved (hchange.history_subset hmem)
      refine ⟨hinterested.change hchange hremoved, ?_⟩
      exact hstep.lively (consistent_of_reachable ⟨timeout, hbefore⟩) hinterested hlively

/-- The state of the registry and of the current step. -/
structure Registered (s : Registry) : Prop where
  /-- The connections registered are those that have been accepted and not destroyed, each once. -/
  connections : (s.connections.map Prod.fst).Nodup ∧
    ∀ connection, connection ∈ s.connections.map Prod.fst ↔ s.objects connection ≠ none
  /-- The connections that the rest of a batch is about exist. -/
  batch : ∀ events toBeDeleted, s.phase = .dispatching events toBeDeleted →
    ∀ connection ∈ pointers events, s.objects connection ≠ none
  /-- A connection that is to be deleted is known. -/
  known : ∀ connection toBeDeleted, s.phase = .deleting (connection :: toBeDeleted) →
    connection ∈ s.connections.map Prod.fst
  /-- No connection is destroyed twice, one that is not registered any more has been destroyed, and all
  of them have been behind `shutdown`. -/
  destroyed : AtMostOnce (objectActions s.history) ∧
    (∀ before connection after,
      objectActions s.history = before ++ .acquire connection :: after →
      connection ∉ s.connections.map Prod.fst → releases connection after = 1) ∧
    (s.phase = .down → ExactlyOnce (objectActions s.history))

/-- **The registry.** In every state of every run in which `EPOLL_CTL_DEL` succeeds, the connections
registered are those that exist, the connections of a batch exist when its events are dispatched, those
to be deleted are known, and every connection is destroyed once. -/
theorem registered_of_reachable (h : Reachable s) (hremoved : .epollDel false ∉ s.history) :
    Registered s := by
  have hconsistent := consistent_of_reachable h
  obtain ⟨-, hlively⟩ := interested_of_reachable h hremoved
  refine ⟨⟨hconsistent.nodup, fun connection => ?_⟩, ?_, ?_, ?_, ?_, ?_⟩
  · rw [hconsistent.registered, fdOf_ne_none_iff]
  · intro events toBeDeleted hphase connection hmem
    rw [hphase] at hlively
    exact fdOf_ne_none_iff.mp (hlively.existing connection (List.mem_append_right _ hmem))
  · intro connection toBeDeleted hphase
    rw [hphase] at hlively
    exact (hconsistent.registered connection).mpr (hlively.existing connection List.mem_cons_self)
  · exact hconsistent.objects.atMostOnce
  · intro before connection after hsplit hunknown
    apply hconsistent.objects.releases_eq_one _ hsplit
    exact fun hexists => hunknown ((hconsistent.registered connection).mpr hexists)
  · intro hdown
    have hnone : existing s.fdOf = ∅ := by
      ext connection
      simp [existing, fdOf_of_down h hdown]
    exact Ledger.exactlyOnce (hnone ▸ hconsistent.objects)

def hungUp : EventBits := ⟨true, false, false, true, false⟩

/-- A client that hangs up, while its event is dispatched. -/
theorem registered_hungUp : ∃ s, Reachable s ∧ .epollDel false ∉ s.history ∧
    s.phase = .dispatching [.connection 4096 hungUp] [] ∧ Registered s := by
  have haccepted := reachable_knocked.step
    (.accept _ _ readable [] [] (some 5) 4096 true true true 0 rfl rfl (by simp [fresh]) rfl rfl)
  have hidle := (haccepted.step (.dispatched _ [] rfl)).step (.deleted _ rfl)
  have hpolling := (hidle.step (.processEventQueue _ 0 [] rfl rfl rfl)).step (.processed _ rfl)
  have hevents := hpolling.step (.ready _ [.connection 4096 hungUp] rfl
    ⟨fun _ hmem => by simp at hmem, List.Subperm.refl _, by decide⟩)
  exact ⟨_, hevents, by decide, rfl, registered_of_reachable hevents (by decide)⟩

end Seasocks.Registry
