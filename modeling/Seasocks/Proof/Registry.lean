import Mathlib.Data.List.Nodup
import Seasocks.Library.ResourceLedger
import Seasocks.Registry

/-!
# Connections and their descriptors

In every run the connections registered are those that exist, and each has a descriptor of its own. A
ledger is kept of the objects and, as long as no `EPOLL_CTL_ADD` fails, one of the descriptors.
-/

namespace Seasocks.Registry

open ResourceLedger Relation

variable {s s' : Registry}

/-! ### Histories -/

def Event.fdAction : Event → Option (Action Descriptor)
  | .accept fd => some (.acquire fd)
  | .close fd => some (.release fd)
  | .new _ | .delete _ | .epollAdd _ | .epollDel _ => none

def Event.objectAction : Event → Option (Action Pointer)
  | .new connection => some (.acquire connection)
  | .delete connection => some (.release connection)
  | .accept _ | .close _ | .epollAdd _ | .epollDel _ => none

/-- The descriptors that `accept` returns, and those that are closed. -/
def fdActions (history : List Event) : List (Action Descriptor) :=
  history.filterMap Event.fdAction

/-- The connections that are constructed, and those that are destroyed. -/
def objectActions (history : List Event) : List (Action Pointer) :=
  history.filterMap Event.objectAction

theorem fdActions_append (history events : List Event) :
    fdActions (history ++ events) = fdActions history ++ fdActions events :=
  List.filterMap_append

theorem objectActions_append (history events : List Event) :
    objectActions (history ++ events) = objectActions history ++ objectActions events :=
  List.filterMap_append

/-! ### Owners of descriptors -/

/-- The descriptor of each connection that exists. -/
def fdOf (s : Registry) (connection : Pointer) : Option Descriptor :=
  (s.objects connection).map Object.fd

theorem fdOf_ne_none_iff {connection : Pointer} :
    s.fdOf connection ≠ none ↔ s.objects connection ≠ none := by
  rw [fdOf, ne_eq, Option.map_eq_none_iff]

theorem fdOf_update (objects : Pointer → Option Object) (connection : Pointer)
    (object : Option Object) (h : s.objects = Function.update objects connection object) :
    s.fdOf = Function.update (fun other => (objects other).map Object.fd) connection
      (object.map Object.fd) := by
  funext other
  rw [fdOf, h]
  by_cases heq : other = connection
  · rw [heq, Function.update_self, Function.update_self]
  · rw [Function.update_of_ne heq, Function.update_of_ne heq]

section Owners

variable {fds : Pointer → Option Descriptor} {connection : Pointer} {fd : Descriptor}

def existing (fds : Pointer → Option Descriptor) : Set Pointer := {other | fds other ≠ none}

def owned (fds : Pointer → Option Descriptor) : Set Descriptor := {fd | ∃ other, fds other = some fd}

/-- No two connections have the same descriptor. -/
def Distinct (fds : Pointer → Option Descriptor) : Prop :=
  ∀ other other' fd, fds other = some fd → fds other' = some fd → other = other'

theorem existing_update_none (fds : Pointer → Option Descriptor) (connection : Pointer) :
    existing (Function.update fds connection none) = existing fds \ {connection} := by
  ext other
  rw [existing, existing, Set.mem_sdiff, Set.mem_singleton_iff, Set.mem_ofPred_eq, Set.mem_ofPred_eq]
  by_cases heq : other = connection
  · simp [heq]
  · simp [heq]

theorem existing_update_some (fds : Pointer → Option Descriptor) (connection : Pointer)
    (fd : Descriptor) :
    existing (Function.update fds connection (some fd)) = insert connection (existing fds) := by
  ext other
  rw [existing, existing, Set.mem_insert_iff, Set.mem_ofPred_eq, Set.mem_ofPred_eq]
  by_cases heq : other = connection
  · simp [heq]
  · simp [heq]

theorem owned_update_none (hdistinct : Distinct fds) (hfd : fds connection = some fd) :
    owned (Function.update fds connection none) = owned fds \ {fd} := by
  ext other
  rw [owned, owned, Set.mem_sdiff, Set.mem_singleton_iff, Set.mem_ofPred_eq, Set.mem_ofPred_eq]
  constructor
  · rintro ⟨owner, howner⟩
    have hne : owner ≠ connection := by
      rintro rfl
      rw [Function.update_self] at howner
      cases howner
    rw [Function.update_of_ne hne] at howner
    refine ⟨⟨owner, howner⟩, fun heq => ?_⟩
    exact hne (hdistinct owner connection fd (heq ▸ howner) hfd)
  · rintro ⟨⟨owner, howner⟩, hne⟩
    refine ⟨owner, ?_⟩
    rwa [Function.update_of_ne]
    rintro rfl
    rw [hfd] at howner
    injection howner with heq
    exact hne heq.symm

theorem owned_update_some (hnew : fds connection = none) (fd : Descriptor) :
    owned (Function.update fds connection (some fd)) = insert fd (owned fds) := by
  ext other
  rw [owned, owned, Set.mem_insert_iff, Set.mem_ofPred_eq, Set.mem_ofPred_eq]
  constructor
  · rintro ⟨owner, howner⟩
    by_cases heq : owner = connection
    · rw [heq, Function.update_self] at howner
      injection howner with hfd
      exact Or.inl hfd.symm
    · rw [Function.update_of_ne heq] at howner
      exact Or.inr ⟨owner, howner⟩
  · rintro (rfl | ⟨owner, howner⟩)
    · exact ⟨connection, Function.update_self ..⟩
    · refine ⟨owner, ?_⟩
      rwa [Function.update_of_ne]
      rintro rfl
      rw [hnew] at howner
      cases howner

theorem Distinct.update_none (h : Distinct fds) (connection : Pointer) :
    Distinct (Function.update fds connection none) := by
  have hback : ∀ other fd, Function.update fds connection none other = some fd →
      fds other = some fd := by
    intro other fd hother
    by_cases heq : other = connection
    · rw [heq, Function.update_self] at hother
      cases hother
    · rwa [Function.update_of_ne heq] at hother
  intro other other' fd hother hother'
  exact h other other' fd (hback other fd hother) (hback other' fd hother')

theorem Distinct.update_some (h : Distinct fds) (connection : Pointer) (hfd : fd ∉ owned fds) :
    Distinct (Function.update fds connection (some fd)) := by
  have hback : ∀ other fd', Function.update fds connection (some fd) other = some fd' →
      other ≠ connection → fds other = some fd' := by
    intro other fd' hother hne
    rwa [Function.update_of_ne hne] at hother
  have hnew : ∀ other fd', Function.update fds connection (some fd) other = some fd' →
      other = connection → fd' = fd := by
    rintro other fd' hother rfl
    rw [Function.update_self] at hother
    injection hother with heq
    exact heq.symm
  intro other other' fd' hother hother'
  by_cases heq : other = connection
  · by_cases heq' : other' = connection
    · rw [heq, heq']
    · have hsame := hnew other fd' hother heq
      exact absurd ⟨other', hsame ▸ hback other' fd' hother' heq'⟩ hfd
  · by_cases heq' : other' = connection
    · have hsame := hnew other' fd' hother' heq'
      exact absurd ⟨other, hsame ▸ hback other fd' hother heq⟩ hfd
    · exact h other other' fd' (hback other fd' hother heq) (hback other' fd' hother' heq')

end Owners

/-! ### What a step changes -/

/-- The same but for where the server thread is and how much each connection has received. -/
structure SameBooks (s s' : Registry) : Prop where
  connections : s'.connections = s.connections
  fdOf : s'.fdOf = s.fdOf
  interest : s'.interest = s.interest
  openFds : s'.openFds = s.openFds
  history : s'.history = s.history

/-- What is left behind a connection. -/
def without (connection : Pointer) (fd : Descriptor) (removed : Bool) (s : Registry) : Registry :=
  { s with
    interest := if removed then s.interest.erase (fd, connection) else s.interest
    connections := s.connections.filter fun entry => entry.1 ≠ connection
    openFds := s.openFds.erase fd
    objects := Function.update s.objects connection none
    history := s.history ++ [.epollDel removed, .close fd, .delete connection] }

/-- What is there with a new connection. -/
def withNew (connection : Pointer) (fd : Descriptor) (now : Int) (s : Registry) : Registry :=
  { s with
    interest := (fd, connection) :: s.interest
    connections := insertConnection connection now s.connections
    openFds := fd :: s.openFds
    objects := Function.update s.objects connection (some ⟨fd, 0⟩)
    history := s.history ++ [.accept fd, .new connection, .epollAdd true] }

/-- What a step of the server does to its connections, and which of them it destroys. -/
inductive Change (s s' : Registry) : Option Pointer → Prop where
  | same (h : SameBooks s s') : Change s s' none
  | delete (connection : Pointer) (fd : Descriptor) (removed : Bool)
      (hfd : s.fdOf connection = some fd) (h : SameBooks (without connection fd removed s) s') :
      Change s s' (some connection)
  /-- The new socket could not be configured. -/
  | refuse (fd : Descriptor) (hfd : fd ∉ s.openFds)
      (h : SameBooks { s with history := s.history ++ [.accept fd, .close fd] } s') : Change s s' none
  | accept (connection : Pointer) (fd : Descriptor) (now : Int) (hfd : fd ∉ s.openFds)
      (hnew : s.objects connection = none) (h : SameBooks (withNew connection fd now s) s') :
      Change s s' none
  /-- The new socket could not be watched: its descriptor is closed twice. -/
  | discard (connection : Pointer) (fd : Descriptor) (removed : Bool) (hfd : fd ∉ s.openFds)
      (hnew : s.objects connection = none)
      (h : SameBooks
        { s with
          interest := if removed then s.interest.erase (fd, connection) else s.interest
          connections := s.connections.filter fun entry => entry.1 ≠ connection
          history := s.history ++ [.accept fd, .new connection, .epollAdd false, .epollDel removed,
            .close fd, .delete connection, .close fd] } s') : Change s s' none

theorem deleteConnection_eq {connection : Pointer} {removed : Bool}
    (h : deleteConnection connection removed s = .ok s') :
    ∃ fd, s.fdOf connection = some fd ∧ s' = without connection fd removed s := by
  rw [deleteConnection] at h
  cases hobject : s.objects connection with
  | none =>
      rw [hobject] at h
      cases h
  | some object =>
      rw [hobject] at h
      injection h with h
      refine ⟨object.fd, by rw [fdOf, hobject]; rfl, ?_⟩
      rw [← h]
      simp [without, closeFd, remove]

theorem handleAccept_change {accepted : Option Descriptor} {newConnection : Pointer}
    {configured added removed : Bool} {now : Int} (hfd : ∀ fd ∈ accepted, fd ∉ s.openFds)
    (hnew : s.objects newConnection = none)
    (h : handleAccept accepted newConnection configured added removed now s = .ok s') :
    Change s s' none := by
  cases accepted with
  | none =>
      injection h with h
      subst h
      exact .same ⟨rfl, rfl, rfl, rfl, rfl⟩
  | some fd =>
      have hfree := hfd fd rfl
      rw [handleAccept] at h
      cases configured with
      | false =>
          injection h with h
          subst h
          exact .refuse fd hfree ⟨rfl, rfl, rfl, by simp [closeFd], by simp [closeFd]⟩
      | true =>
          cases added with
          | true =>
              injection h with h
              subst h
              exact .accept newConnection fd now hfree hnew ⟨rfl, rfl, rfl, rfl, by simp [withNew]⟩
          | false =>
              obtain ⟨s₁, hdelete, h⟩ := ok_of_bind_eq_ok h
              obtain ⟨fd', hfd', rfl⟩ := deleteConnection_eq hdelete
              injection h with h
              have hsame : fd' = fd := by simpa [fdOf] using hfd'.symm
              subst hsame h
              refine .discard newConnection fd' removed hfree hnew ⟨rfl, ?_, rfl, ?_, ?_⟩
              · funext other
                by_cases heq : other = newConnection
                · simp [fdOf, closeFd, without, heq, hnew]
                · simp [fdOf, closeFd, without, Function.update_of_ne heq]
              · simp [closeFd, without, List.erase_of_not_mem hfree]
              · simp [closeFd, without]

theorem handleConnectionEvents_sameBooks {connection : Pointer} {events : EventBits} {received : Nat}
    {close : Bool} (h : handleConnectionEvents connection events received s = .ok (close, s')) :
    s.objects connection ≠ none ∧ SameBooks s s' := by
  rw [handleConnectionEvents] at h
  cases hobject : s.objects connection with
  | none =>
      rw [hobject] at h
      cases h
  | some object =>
      refine ⟨Option.some_ne_none object, ?_⟩
      rw [hobject] at h
      dsimp only at h
      split_ifs at h with hclose hinput
      · injection h with h
        injection h with _ h
        subst h
        exact ⟨rfl, rfl, rfl, rfl, rfl⟩
      · injection h with h
        injection h with _ h
        subst h
        refine ⟨rfl, ?_, rfl, rfl, rfl⟩
        funext other
        by_cases heq : other = connection
        · simp [fdOf, heq, hobject]
        · simp [fdOf, Function.update_of_ne heq]
      · injection h with h
        injection h with _ h
        subst h
        exact ⟨rfl, rfl, rfl, rfl, rfl⟩

theorem SameBooks.refl (s : Registry) : SameBooks s s := ⟨rfl, rfl, rfl, rfl, rfl⟩

theorem SameBooks.trans {s'' : Registry} (h : SameBooks s s') (h' : SameBooks s' s'') :
    SameBooks s s'' where
  connections := h'.connections.trans h.connections
  fdOf := h'.fdOf.trans h.fdOf
  interest := h'.interest.trans h.interest
  openFds := h'.openFds.trans h.openFds
  history := h'.history.trans h.history

theorem Change.phase {gone : Option Pointer} (h : Change s s' gone) (phase : Phase) :
    Change s { s' with phase } gone := by
  have hphase : SameBooks s' { s' with phase } := ⟨rfl, rfl, rfl, rfl, rfl⟩
  cases h with
  | same h => exact .same (h.trans hphase)
  | delete connection fd removed hfd h => exact .delete connection fd removed hfd (h.trans hphase)
  | refuse fd hfd h => exact .refuse fd hfd (h.trans hphase)
  | accept connection fd now hfd hnew h => exact .accept connection fd now hfd hnew (h.trans hphase)
  | discard connection fd removed hfd hnew h =>
      exact .discard connection fd removed hfd hnew (h.trans hphase)

theorem deleteConnection_change {connection : Pointer} {removed : Bool}
    (h : deleteConnection connection removed s = .ok s') :
    Change s s' (some connection) := by
  obtain ⟨fd, hfd, rfl⟩ := deleteConnection_eq h
  exact .delete connection fd removed hfd (SameBooks.refl _)

theorem Step.change (h : Step s s') : ∃ gone, Change s s' gone := by
  cases h with
  | removeLame s' connection toRemove removed hphase hdelete =>
      exact ⟨_, (deleteConnection_change hdelete).phase _⟩
  | accept s' bits events toBeDeleted accepted newConnection configured added removed now hphase hbits
      hfd hnew haccept => exact ⟨_, (handleAccept_change hfd hnew haccept).phase _⟩
  | connection s' connection bits events toBeDeleted received close hphase hhandle =>
      exact ⟨_, Change.phase (.same (handleConnectionEvents_sameBooks hhandle).2) _⟩
  | thrown s' connection bits events toBeDeleted received hphase hhandle =>
      exact ⟨_, Change.phase (.same (handleConnectionEvents_sameBooks hhandle).2) _⟩
  | delete s' connection toBeDeleted removed hphase hknown hdelete =>
      exact ⟨_, (deleteConnection_change hdelete).phase _⟩
  | disconnect s' connection connected connections removed hphase hconnections hdelete =>
      exact ⟨_, deleteConnection_change hdelete⟩
  | _ => exact ⟨_, .same ⟨rfl, rfl, rfl, rfl, rfl⟩⟩

/-- What a step adds to the history; a failed `EPOLL_CTL_ADD` comes with two calls of `close`. -/
theorem Change.history {gone : Option Pointer} (h : Change s s' gone) :
    ∃ events, s'.history = s.history ++ events ∧ (.epollAdd false ∈ events →
      ∃ fd, fdActions events = [.acquire fd, .release fd, .release fd]) := by
  cases h with
  | same hsame => exact ⟨[], by rw [hsame.history, List.append_nil], nofun⟩
  | delete connection fd removed hfd hsame => exact ⟨_, hsame.history, by simp⟩
  | refuse fd hfd hsame => exact ⟨_, hsame.history, by simp⟩
  | accept connection fd now hfd hnew hsame => exact ⟨_, hsame.history, by simp⟩
  | discard connection fd removed hfd hnew hsame =>
      exact ⟨_, hsame.history, fun _ => ⟨fd, rfl⟩⟩

theorem Change.history_subset {gone : Option Pointer} (h : Change s s' gone) :
    s.history ⊆ s'.history := by
  obtain ⟨events, hhistory, -⟩ := h.history
  rw [hhistory]
  exact List.subset_append_left _ _

/-! ### The invariant of every run -/

/-- The connections registered are those that exist, each with an open descriptor of its own. -/
structure Consistent (s : Registry) : Prop where
  distinct : Distinct s.fdOf
  nodup : (s.connections.map Prod.fst).Nodup
  registered : ∀ connection, connection ∈ s.connections.map Prod.fst ↔ s.fdOf connection ≠ none
  openFds : ∀ fd, fd ∈ s.openFds ↔ fd ∈ owned s.fdOf
  once : s.openFds.Nodup
  objects : Ledger (objectActions s.history) (existing s.fdOf)
  fds : .epollAdd false ∉ s.history → Ledger (fdActions s.history) (owned s.fdOf)

theorem consistent_fresh (lameConnectionTimeoutSeconds : Int) :
    Consistent (fresh lameConnectionTimeoutSeconds) where
  distinct other other' fd hother := by cases hother
  nodup := List.nodup_nil
  registered connection := by simp [fresh, fdOf]
  openFds fd := by simp [fresh, owned, fdOf]
  once := List.nodup_nil
  objects := by
    have hnone : existing (fresh lameConnectionTimeoutSeconds).fdOf = ∅ := by
      ext connection
      simp [existing, fresh, fdOf]
    rw [hnone]
    exact Ledger.empty
  fds _ := by
    have hnone : owned (fresh lameConnectionTimeoutSeconds).fdOf = ∅ := by
      ext fd
      simp [owned, fresh, fdOf]
    rw [hnone]
    exact Ledger.empty

theorem Consistent.same (h : Consistent s) (hsame : SameBooks s s') : Consistent s' where
  distinct := hsame.fdOf ▸ h.distinct
  nodup := hsame.connections ▸ h.nodup
  registered := by
    rw [hsame.connections, hsame.fdOf]
    exact h.registered
  openFds := by
    rw [hsame.openFds, hsame.fdOf]
    exact h.openFds
  once := hsame.openFds ▸ h.once
  objects := by
    rw [hsame.history, hsame.fdOf]
    exact h.objects
  fds := by
    rw [hsame.history, hsame.fdOf]
    exact h.fds

theorem fdOf_without (connection : Pointer) (fd : Descriptor) (removed : Bool) (s : Registry) :
    (without connection fd removed s).fdOf = Function.update s.fdOf connection none :=
  fdOf_update s.objects connection none rfl

theorem fdOf_withNew (connection : Pointer) (fd : Descriptor) (now : Int) (s : Registry) :
    (withNew connection fd now s).fdOf = Function.update s.fdOf connection (some fd) :=
  fdOf_update s.objects connection (some ⟨fd, 0⟩) rfl

/-- Registered connections but for one. -/
theorem mem_filter_connections {connections : List (Pointer × Int)} {connection other : Pointer} :
    other ∈ (connections.filter fun entry => entry.1 ≠ connection).map Prod.fst ↔
      other ∈ connections.map Prod.fst ∧ other ≠ connection := by
  simp only [List.mem_map, List.mem_filter, decide_eq_true_eq]
  constructor
  · rintro ⟨entry, ⟨hmem, hne⟩, rfl⟩
    exact ⟨⟨entry, hmem, rfl⟩, hne⟩
  · rintro ⟨⟨entry, hmem, rfl⟩, hne⟩
    exact ⟨entry, ⟨hmem, hne⟩, rfl⟩

theorem Consistent.delete (h : Consistent s) {connection : Pointer} {fd : Descriptor}
    (hfd : s.fdOf connection = some fd) (removed : Bool) :
    Consistent (without connection fd removed s) where
  distinct := by
    rw [fdOf_without]
    exact h.distinct.update_none connection
  nodup := h.nodup.sublist (List.filter_sublist.map _)
  registered other := by
    rw [fdOf_without]
    refine mem_filter_connections.trans ?_
    by_cases heq : other = connection
    · simp [heq]
    · rw [Function.update_of_ne heq, and_iff_left heq]
      exact h.registered other
  openFds other := by
    rw [fdOf_without, owned_update_none h.distinct hfd, Set.mem_sdiff, Set.mem_singleton_iff,
      ← h.openFds other, and_comm]
    exact h.once.mem_erase_iff
  once := h.once.erase fd
  objects := by
    rw [fdOf_without, existing_update_none]
    have hactions : objectActions (without connection fd removed s).history =
        objectActions s.history ++ [.release connection] := objectActions_append _ _
    rw [hactions]
    exact h.objects.release (by simp [existing, hfd])
  fds hadded := by
    rw [fdOf_without, owned_update_none h.distinct hfd]
    have hactions : fdActions (without connection fd removed s).history =
        fdActions s.history ++ [.release fd] := fdActions_append _ _
    rw [hactions]
    refine (h.fds fun hmem => hadded (List.mem_append_left _ hmem)).release ?_
    exact ⟨connection, hfd⟩

theorem Consistent.refuse (h : Consistent s) {fd : Descriptor} (hfd : fd ∉ s.openFds) :
    Consistent { s with history := s.history ++ [.accept fd, .close fd] } where
  distinct := h.distinct
  nodup := h.nodup
  registered := h.registered
  openFds := h.openFds
  once := h.once
  objects := by
    have hactions : objectActions [.accept fd, .close fd] = [] := rfl
    rw [objectActions_append, hactions, List.append_nil]
    exact h.objects
  fds hadded := by
    dsimp only
    rw [fdActions_append]
    refine Ledger.borrow (h.fds fun hmem => hadded (List.mem_append_left _ hmem)) ?_
    exact fun howned => hfd ((h.openFds fd).mpr howned)

theorem Consistent.not_registered (h : Consistent s) {connection : Pointer}
    (hnew : s.objects connection = none) : connection ∉ s.connections.map Prod.fst := by
  rw [h.registered, not_not, fdOf, hnew]
  rfl

theorem map_insertConnection {connection : Pointer} {connections : List (Pointer × Int)} (now : Int)
    (h : connection ∉ connections.map Prod.fst) :
    (insertConnection connection now connections).map Prod.fst =
      connections.map Prod.fst ++ [connection] := by
  rw [insertConnection, if_neg h, List.map_append]
  rfl

theorem Consistent.accept (h : Consistent s) {connection : Pointer} {fd : Descriptor}
    (hfd : fd ∉ s.openFds) (hnew : s.objects connection = none) (now : Int) :
    Consistent (withNew connection fd now s) where
  distinct := by
    rw [fdOf_withNew]
    exact h.distinct.update_some connection fun howned => hfd ((h.openFds fd).mpr howned)
  nodup := by
    have hunknown := h.not_registered hnew
    have hmap := map_insertConnection now hunknown
    exact hmap.symm ▸ List.Nodup.append h.nodup (List.nodup_singleton connection) (by simpa using hunknown)
  registered other := by
    have hmap := map_insertConnection now (h.not_registered hnew)
    have hmem : other ∈ (withNew connection fd now s).connections.map Prod.fst ↔
        other ∈ s.connections.map Prod.fst ∨ other = connection := by
      rw [← List.mem_singleton, ← List.mem_append]
      exact iff_of_eq (congrArg (other ∈ ·) hmap)
    rw [fdOf_withNew, hmem, h.registered other]
    by_cases heq : other = connection
    · simp [heq]
    · rw [Function.update_of_ne heq, or_iff_left heq]
  openFds other := by
    rw [fdOf_withNew, owned_update_some (by rw [fdOf, hnew]; rfl), Set.mem_insert_iff,
      ← h.openFds other]
    exact List.mem_cons
  once := List.nodup_cons.mpr ⟨hfd, h.once⟩
  objects := by
    rw [fdOf_withNew, existing_update_some]
    have hactions : objectActions (withNew connection fd now s).history =
        objectActions s.history ++ [.acquire connection] := objectActions_append _ _
    rw [hactions]
    exact h.objects.acquire (by simp [existing, fdOf, hnew])
  fds hadded := by
    rw [fdOf_withNew, owned_update_some (by rw [fdOf, hnew]; rfl)]
    have hactions : fdActions (withNew connection fd now s).history =
        fdActions s.history ++ [.acquire fd] := fdActions_append _ _
    rw [hactions]
    refine (h.fds fun hmem => hadded (List.mem_append_left _ hmem)).acquire ?_
    exact fun howned => hfd ((h.openFds fd).mpr howned)

theorem Consistent.discard (h : Consistent s) {connection : Pointer} {fd : Descriptor}
    (hnew : s.objects connection = none) (removed : Bool) (interest : List (Descriptor × Pointer)) :
    Consistent
      { s with
        interest
        connections := s.connections.filter fun entry => entry.1 ≠ connection
        history := s.history ++ [.accept fd, .new connection, .epollAdd false, .epollDel removed,
          .close fd, .delete connection, .close fd] } where
  distinct := h.distinct
  nodup := h.nodup.sublist (List.filter_sublist.map _)
  registered other := by
    refine mem_filter_connections.trans ⟨fun hmem => (h.registered other).mp hmem.1, fun hexists => ?_⟩
    refine ⟨(h.registered other).mpr hexists, ?_⟩
    rintro rfl
    exact fdOf_ne_none_iff.mp hexists hnew
  openFds := h.openFds
  once := h.once
  objects := by
    have hfree : connection ∉ existing s.fdOf := fun hexists => fdOf_ne_none_iff.mp hexists hnew
    have hactions : objectActions [.accept fd, .new connection, .epollAdd false, .epollDel removed,
        .close fd, .delete connection, .close fd] = [.acquire connection, .release connection] := rfl
    rw [objectActions_append, hactions]
    exact h.objects.borrow hfree
  fds hadded := by
    refine absurd ?_ hadded
    simp

theorem Consistent.change {gone : Option Pointer} (h : Consistent s) (hchange : Change s s' gone) :
    Consistent s' := by
  cases hchange with
  | same hsame => exact h.same hsame
  | delete connection fd removed hfd hsame => exact (h.delete hfd removed).same hsame
  | refuse fd hfd hsame => exact (h.refuse hfd).same hsame
  | accept connection fd now hfd hnew hsame => exact (h.accept hfd hnew now).same hsame
  | discard connection fd removed hfd hnew hsame => exact (h.discard hnew removed _).same hsame

theorem consistent_of_reachable (h : Reachable s) : Consistent s := by
  obtain ⟨timeout, hsteps⟩ := h
  induction hsteps with
  | refl => exact consistent_fresh timeout
  | tail _ hstep ih =>
      obtain ⟨gone, hchange⟩ := hstep.change
      exact ih.change hchange

/-! ### Shutting down -/

theorem Step.down (h : Step s s') (hdown : s'.phase = .down) : s'.connections = [] := by
  cases h with
  | closed hphase hconnections => exact hconnections
  | disconnect s' connection connected connections removed hphase hconnections hdelete =>
      obtain ⟨fd, -, rfl⟩ := deleteConnection_eq hdelete
      exact absurd (hphase.symm.trans hdown) (by simp)
  | _ => exact absurd hdown (by simp)

theorem connections_of_down (h : Reachable s) (hdown : s.phase = .down) : s.connections = [] := by
  obtain ⟨timeout, hsteps⟩ := h
  cases hsteps with
  | refl => rfl
  | tail _ hstep => exact hstep.down hdown

/-- Behind `shutdown` there is no connection any more. -/
theorem fdOf_of_down (h : Reachable s) (hdown : s.phase = .down) (connection : Pointer) :
    s.fdOf connection = none := by
  have hregistered := (consistent_of_reachable h).registered connection
  rw [connections_of_down h hdown] at hregistered
  by_contra hexists
  cases hregistered.mpr hexists

end Seasocks.Registry
