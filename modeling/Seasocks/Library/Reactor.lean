import Seasocks.Library.OrderedSet

/-!
# Reactors

A reactor takes one event after the other, changes its state and sends messages to addresses. What comes of
a history of events depends on nothing else, so all that is asked about the messages of one address is asked
about a history.
-/

/-- What reacts to events with a state of its own. -/
structure Reactor (σ Event Address Message : Type) where
  react : Event → σ → σ × List (Address × Message)

namespace Reactor

variable {σ Event Address Message : Type} (r : Reactor σ Event Address Message)

/-- The state after a history, and everything sent on the way. -/
def replay : List Event → σ → σ × List (Address × Message)
  | [], s => (s, [])
  | event :: events, s =>
      let (s, sent) := r.react event s
      let (s, later) := replay events s
      (s, sent ++ later)

/-- The messages for one address. -/
def mailFor [DecidableEq Address] (address : Address) (sent : List (Address × Message)) : List Message :=
  sent.filterMap fun entry => if entry.1 = address then some entry.2 else none

/-- The messages for all other addresses. -/
def mailExcept [DecidableEq Address] (address : Address) (sent : List (Address × Message)) :
    List (Address × Message) :=
  sent.filter fun entry => entry.1 ≠ address

variable {r}

theorem replay_append (events events' : List Event) (s : σ) :
    r.replay (events ++ events') s =
      ((r.replay events' (r.replay events s).1).1,
        (r.replay events s).2 ++ (r.replay events' (r.replay events s).1).2) := by
  induction events generalizing s with
  | nil => rfl
  | cons event events ih =>
      simp only [List.cons_append, replay, ih, List.append_assoc]

theorem replay_concat (events : List Event) (event : Event) (s : σ) :
    r.replay (events ++ [event]) s =
      ((r.react event (r.replay events s).1).1,
        (r.replay events s).2 ++ (r.react event (r.replay events s).1).2) := by
  simp only [replay_append, replay, List.append_nil]

section Mail

variable [DecidableEq Address]

theorem mailFor_append (address : Address) (sent sent' : List (Address × Message)) :
    mailFor address (sent ++ sent') = mailFor address sent ++ mailFor address sent' :=
  List.filterMap_append

theorem mailFor_mailExcept_self (address : Address) (sent : List (Address × Message)) :
    mailFor address (mailExcept address sent) = [] := by
  rw [mailFor, List.filterMap_eq_nil_iff]
  intro entry hentry
  rw [mailExcept, List.mem_filter, decide_eq_true_eq] at hentry
  exact if_neg hentry.2

theorem mailFor_mailExcept {address other : Address} (hne : other ≠ address)
    (sent : List (Address × Message)) : mailFor other (mailExcept address sent) = mailFor other sent := by
  induction sent with
  | nil => rfl
  | cons entry sent ih =>
      rw [mailFor, mailFor, List.filterMap_cons]
      by_cases hto : entry.1 = address
      · rw [mailExcept, List.filter_cons_of_neg (by simpa using hto), if_neg (hto ▸ hne.symm)]
        exact ih
      · rw [mailExcept, List.filter_cons_of_pos (by simpa using hto), List.filterMap_cons]
        exact congrArg (fun rest => match if entry.1 = other then some entry.2 else none with
          | none => rest
          | some message => message :: rest) ih

end Mail

/-! ### Rooms -/

section Room

variable [LinearOrder Address]

/-- What an event means for a room whose members all hear what is announced. -/
inductive Part (Address Message : Type) where
  | join (address : Address) (announcement : Message)
  | say (announcement : Message)
  | leave (address : Address) (announcement : Message)
  | nothing

def Part.announcement : Part Address Message → Option Message
  | .join _ announcement | .say announcement | .leave _ announcement => some announcement
  | .nothing => none

/-- The same message for every member. -/
def broadcast (message : Message) (members : OrderedSet Address) : List (Address × Message) :=
  members.elements.map fun member => (member, message)

/-- A room, whose state is who is in it. -/
def room (part : Event → Part Address Message) : Reactor (OrderedSet Address) Event Address Message where
  react event members :=
    match part event with
    | .join address announcement =>
        (members.insert address, broadcast announcement (members.insert address))
    | .say announcement => (members, broadcast announcement members)
    | .leave address announcement =>
        (members.erase address, broadcast announcement (members.erase address))
    | .nothing => (members, [])

theorem mailFor_broadcast (address : Address) (message : Message) (members : OrderedSet Address) :
    mailFor address (broadcast message members) = if address ∈ members then [message] else [] := by
  have hlist : ∀ list : List Address, list.Nodup →
      mailFor address (list.map fun member => (member, message)) =
        if address ∈ list then [message] else [] := by
    intro list hnodup
    induction list with
    | nil => rfl
    | cons member list ih =>
        rw [List.nodup_cons] at hnodup
        rw [List.map_cons, mailFor, List.filterMap_cons]
        have hrest := ih hnodup.2
        rw [mailFor] at hrest
        rw [hrest]
        by_cases hsame : member = address
        · subst hsame
          rw [if_pos rfl, if_neg hnodup.1, if_pos List.mem_cons_self]
        · have hmem : address ∈ member :: list ↔ address ∈ list := by
            rw [List.mem_cons]
            exact or_iff_right fun h => hsame h.symm
          rw [if_neg hsame, if_congr hmem rfl rfl]
  rw [broadcast, hlist _ members.nodup, if_congr OrderedSet.mem_def.symm rfl rfl]

variable {part : Event → Part Address Message} {address : Address}

/-- A member that does not leave hears every announcement once, in the order of the history. -/
theorem mailFor_replay_room {events : List Event} {members : OrderedSet Address} (hmember : address ∈ members)
    (hstays : ∀ event ∈ events, ∀ announcement, part event ≠ .leave address announcement) :
    mailFor address ((room part).replay events members).2 =
      events.filterMap fun event => (part event).announcement := by
  induction events generalizing members with
  | nil => rfl
  | cons event events ih =>
      have hlater : ∀ event' ∈ events, ∀ announcement, part event' ≠ .leave address announcement :=
        fun event' hmem => hstays event' (List.mem_cons_of_mem _ hmem)
      rw [replay]
      dsimp only
      rw [mailFor_append, List.filterMap_cons]
      cases hpart : part event with
      | join other announcement =>
          have hstill : address ∈ members.insert other := OrderedSet.mem_insert_of_mem hmember
          simp only [room, hpart, mailFor_broadcast, if_pos hstill]
          exact congrArg _ (ih hstill hlater)
      | say announcement =>
          simp only [room, hpart, mailFor_broadcast, if_pos hmember]
          exact congrArg _ (ih hmember hlater)
      | leave other announcement =>
          have hstill : address ∈ members.erase other := by
            refine OrderedSet.mem_erase.mpr ⟨?_, hmember⟩
            rintro rfl
            exact hstays event List.mem_cons_self announcement hpart
          simp only [room, hpart, mailFor_broadcast, if_pos hstill]
          exact congrArg _ (ih hstill hlater)
      | nothing =>
          simp only [room, hpart]
          exact ih hmember hlater

/-- From the moment it joins. -/
theorem mailFor_replay_join {event : Event} {events : List Event} {members : OrderedSet Address}
    {announcement : Message} (hjoin : part event = .join address announcement)
    (hstays : ∀ event ∈ events, ∀ announcement, part event ≠ .leave address announcement) :
    mailFor address ((room part).replay (event :: events) members).2 =
      (event :: events).filterMap fun event => (part event).announcement := by
  have hjoined : mailFor address ((room part).replay (event :: events) members).2 =
      announcement :: mailFor address ((room part).replay events (members.insert address)).2 := by
    rw [replay]
    dsimp only
    simp only [room, hjoin, mailFor_append, mailFor_broadcast, if_pos (OrderedSet.mem_insert_self _ _)]
    rfl
  rw [hjoined, mailFor_replay_room (OrderedSet.mem_insert_self _ _) hstays, List.filterMap_cons, hjoin]
  rfl

/-- The members have been members before, or have joined. -/
theorem mem_of_mem_replay_room {events : List Event} {members : OrderedSet Address}
    (h : address ∈ ((room part).replay events members).1) :
    address ∈ members ∨ ∃ event ∈ events, ∃ announcement, part event = .join address announcement := by
  induction events generalizing members with
  | nil => exact Or.inl h
  | cons event events ih =>
      rw [replay] at h
      dsimp only at h
      rcases ih h with hmem | ⟨event', hevent', hjoin⟩
      · cases hpart : part event with
        | join other announcement =>
            simp only [room, hpart, OrderedSet.mem_insert] at hmem
            rcases hmem with rfl | hmem
            · exact Or.inr ⟨event, List.mem_cons_self, announcement, hpart⟩
            · exact Or.inl hmem
        | say announcement =>
            simp only [room, hpart] at hmem
            exact Or.inl hmem
        | leave other announcement =>
            simp only [room, hpart] at hmem
            exact Or.inl (OrderedSet.mem_erase.mp hmem).2
        | nothing =>
            simp only [room, hpart] at hmem
            exact Or.inl hmem
      · exact Or.inr ⟨event', List.mem_cons_of_mem _ hevent', hjoin⟩

/-- A member that does not leave is a member still. -/
theorem mem_replay_room {events : List Event} {members : OrderedSet Address} (hmember : address ∈ members)
    (hstays : ∀ event ∈ events, ∀ announcement, part event ≠ .leave address announcement) :
    address ∈ ((room part).replay events members).1 := by
  induction events generalizing members with
  | nil => exact hmember
  | cons event events ih =>
      rw [replay]
      refine ih ?_ fun event' hmem => hstays event' (List.mem_cons_of_mem _ hmem)
      cases hpart : part event with
      | join other announcement =>
          simp only [room, hpart]
          exact OrderedSet.mem_insert_of_mem hmember
      | say announcement =>
          simp only [room, hpart]
          exact hmember
      | leave other announcement =>
          simp only [room, hpart]
          refine OrderedSet.mem_erase.mpr ⟨?_, hmember⟩
          rintro rfl
          exact hstays event List.mem_cons_self announcement hpart
      | nothing =>
          simp only [room, hpart]
          exact hmember

/-- Only members are sent anything, those of before and those that have joined. -/
theorem mem_of_mem_sent_room {events : List Event} {members : OrderedSet Address} {entry : Address × Message}
    (h : entry ∈ ((room part).replay events members).2) :
    entry.1 ∈ members ∨ ∃ event ∈ events, ∃ announcement, part event = .join entry.1 announcement := by
  have hbroadcast : ∀ (message : Message) (members : OrderedSet Address),
      entry ∈ broadcast message members → entry.1 ∈ members := by
    intro message members hentry
    obtain ⟨member, hmember, rfl⟩ := List.mem_map.mp hentry
    exact hmember
  induction events generalizing members with
  | nil => cases h
  | cons event events ih =>
      have later : ∀ {members' : OrderedSet Address}, (entry.1 ∈ members' → entry.1 ∈ members ∨
          ∃ announcement, part event = .join entry.1 announcement) →
          entry ∈ ((room part).replay events members').2 → entry.1 ∈ members ∨
            ∃ event' ∈ event :: events, ∃ announcement, part event' = .join entry.1 announcement := by
        intro members' hmembers hentry
        rcases ih hentry with hmem | ⟨event', hevent', hjoin⟩
        · rcases hmembers hmem with hmem | hjoin
          · exact Or.inl hmem
          · exact Or.inr ⟨event, List.mem_cons_self, hjoin⟩
        · exact Or.inr ⟨event', List.mem_cons_of_mem _ hevent', hjoin⟩
      rw [replay] at h
      dsimp only at h
      cases hpart : part event with
      | join other announcement =>
          have hmembers : entry.1 ∈ members.insert other → entry.1 ∈ members ∨
              ∃ announcement, part event = .join entry.1 announcement := by
            intro hmem
            rcases OrderedSet.mem_insert.mp hmem with hsame | hmem
            · exact Or.inr ⟨announcement, hsame ▸ hpart⟩
            · exact Or.inl hmem
          simp only [room, hpart, List.mem_append] at h
          rcases h with hnow | hlater
          · rcases hmembers (hbroadcast _ _ hnow) with hmem | hjoin
            · exact Or.inl hmem
            · exact Or.inr ⟨event, List.mem_cons_self, hjoin⟩
          · exact later hmembers hlater
      | say announcement =>
          simp only [room, hpart, List.mem_append] at h
          exact h.elim (fun hnow => Or.inl (hbroadcast _ _ hnow)) (later Or.inl)
      | leave other announcement =>
          simp only [room, hpart, List.mem_append] at h
          rcases h with hnow | hlater
          · exact Or.inl (OrderedSet.mem_erase.mp (hbroadcast _ _ hnow)).2
          · exact later (fun hmem => Or.inl (OrderedSet.mem_erase.mp hmem).2) hlater
      | nothing =>
          simp only [room, hpart, List.nil_append] at h
          exact later Or.inl h

end Room

end Reactor
