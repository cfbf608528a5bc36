import Mathlib.Data.List.Perm.Basic
import Mathlib.Logic.Function.Basic
import Mathlib.Logic.Relation
import Seasocks.Fault

/-!
# The server's connections

`Server` as far as its connections go: which it has accepted, which `epoll` watches, and when each is
destroyed and its descriptor closed. What the kernel, the clients and the handlers do is left open.
-/

namespace Seasocks

abbrev Descriptor := Nat

/-- Where a `Connection` object lies. -/
abbrev Pointer := Nat

namespace Registry

/-- A `Connection` object. -/
structure Object where
  fd : Descriptor
  bytesReceived : Nat
deriving DecidableEq, Repr

/-- What the server has done, with the results of `epoll_ctl`. -/
inductive Event where
  | accept (fd : Descriptor)
  | close (fd : Descriptor)
  | new (connection : Pointer)
  | delete (connection : Pointer)
  | epollAdd (succeeded : Bool)
  | epollDel (succeeded : Bool)
deriving DecidableEq, Repr

/-- `EPOLLIN`, `EPOLLOUT`, `EPOLLERR` and `EPOLLHUP`, and whether any other bit is set. -/
structure EventBits where
  input : Bool
  output : Bool
  error : Bool
  hangUp : Bool
  other : Bool
deriving DecidableEq, Repr

/-- `events & ~EPOLLIN`. -/
def EventBits.unexpected (events : EventBits) : Bool :=
  events.output || events.error || events.hangUp || events.other

/-- An event that `epoll_wait` returns, by what its `data.ptr` is. -/
inductive PolledEvent where
  | listenSock (events : EventBits)
  | eventFd (events : EventBits)
  | connection (connection : Pointer) (events : EventBits)
deriving DecidableEq, Repr

def PolledEvent.pointer : PolledEvent → Option Pointer
  | .connection object _ => some object
  | .listenSock _ | .eventFd _ => none

/-- The connections a batch is about. -/
def pointers (events : List PolledEvent) : List Pointer := events.filterMap PolledEvent.pointer

/-- Where the server thread is. -/
inductive Phase where
  /-- Between two calls of `processEventQueue` and `checkAndDispatchEpoll`, or outside of the loop. -/
  | idle
  /-- Deleting the lame connections. -/
  | removing (toRemove : List Pointer)
  /-- Behind `processEventQueue`. -/
  | polling
  | dispatching (events : List PolledEvent) (toBeDeleted : List Pointer)
  | deleting (toBeDeleted : List Pointer)
  | shuttingDown
  /-- Behind `shutdown`. -/
  | down
deriving DecidableEq, Repr

def maxEvents : Nat := 256

/-- When lame connections are next looked for, which never changes. -/
def nextDeadConnectionCheck : Int := 0

end Registry

open Registry

/-- The server with its `Connection` objects, the connections `epoll` watches (each by descriptor and
`data.ptr`) and the descriptors it has open. -/
structure Registry where
  lameConnectionTimeoutSeconds : Int
  listenSock : Bool
  connections : List (Pointer × Int)
  objects : Pointer → Option Object
  interest : List (Descriptor × Pointer)
  openFds : List Descriptor
  phase : Phase
  history : List Event

namespace Registry

def fresh (lameConnectionTimeoutSeconds : Int) : Registry :=
  { lameConnectionTimeoutSeconds
    listenSock := false
    connections := []
    objects := fun _ => none
    interest := []
    openFds := []
    phase := .idle
    history := [] }

/-! ### Destruction -/

/-- `remove`; `removed` is whether `EPOLL_CTL_DEL` succeeds. -/
def remove (connection : Pointer) (fd : Descriptor) (removed : Bool) (s : Registry) : Registry :=
  { s with
    interest := if removed then s.interest.erase (fd, connection) else s.interest
    connections := s.connections.filter fun entry => entry.1 ≠ connection
    history := s.history ++ [.epollDel removed] }

/-- `::close`, which fails on a descriptor that is not open. -/
def closeFd (fd : Descriptor) (s : Registry) : Registry :=
  { s with openFds := s.openFds.erase fd, history := s.history ++ [.close fd] }

/-- The destructor of a connection, whose `finalise` is called from nowhere else. -/
def deleteConnection (connection : Pointer) (removed : Bool) (s : Registry) : Except Fault Registry :=
  match s.objects connection with
  | none => .error .badPointer
  | some object =>
      let s := closeFd object.fd (remove connection object.fd removed s)
      .ok
        { s with
          objects := Function.update s.objects connection none
          history := s.history ++ [.delete connection] }

/-! ### Accepting -/

/-- `std::unordered_map::insert`. -/
def insertConnection (connection : Pointer) (now : Int) (connections : List (Pointer × Int)) :
    List (Pointer × Int) :=
  if connection ∈ connections.map Prod.fst then connections else connections ++ [(connection, now)]

/-- `handleAccept`: `accepted` is what `accept` returns, `none` for -1; the object is constructed at
`newConnection`. The results of `configureSocket`, `EPOLL_CTL_ADD` and `EPOLL_CTL_DEL` follow. -/
def handleAccept (accepted : Option Descriptor) (newConnection : Pointer)
    (configured added removed : Bool) (now : Int) (s : Registry) : Except Fault Registry :=
  match accepted with
  | none => .ok s
  | some fd =>
      let s := { s with openFds := fd :: s.openFds, history := s.history ++ [.accept fd] }
      if !configured then
        .ok (closeFd fd s)
      else
        let s :=
          { s with
            objects := Function.update s.objects newConnection (some ⟨fd, 0⟩)
            history := s.history ++ [.new newConnection, .epollAdd added] }
        if !added then do
          let s ← deleteConnection newConnection removed s
          return closeFd fd s
        else
          .ok
            { s with
              interest := (fd, newConnection) :: s.interest
              connections := insertConnection newConnection now s.connections }

/-! ### The loop -/

/-- The loop of `processEventQueue` over the connections. -/
def lameAmong (s : Registry) (now : Int) : List (Pointer × Int) → Except Fault (List Pointer)
  | [] => .ok []
  | (connection, connected) :: connections =>
      match s.objects connection with
      | none => .error .badPointer
      | some object => do
          let toRemove ← lameAmong s now connections
          if object.bytesReceived = 0 ∧ s.lameConnectionTimeoutSeconds ≤ now - connected then
            return connection :: toRemove
          else
            return toRemove

def lameConnections (now : Int) (s : Registry) : Except Fault (List Pointer) :=
  if now < nextDeadConnectionCheck then .ok [] else lameAmong s now s.connections

/-- `handleConnectionEvents`: whether the connection is to be closed. `received` is how many bytes are
read if there are any to read. -/
def handleConnectionEvents (connection : Pointer) (events : EventBits) (received : Nat)
    (s : Registry) : Except Fault (Bool × Registry) :=
  match s.objects connection with
  | none => .error .badPointer
  | some object =>
      if events.other || events.error || events.hangUp then
        .ok (true, s)
      else if events.input then
        let object := { object with bytesReceived := object.bytesReceived + received }
        .ok (false, { s with objects := Function.update s.objects connection (some object) })
      else
        .ok (false, s)

/-- What `epoll_wait` may return: events of the listening socket only while there is one, and every
entry of the interest list at most once. -/
structure Reports (s : Registry) (events : List PolledEvent) : Prop where
  listening : ∀ bits, .listenSock bits ∈ events → s.listenSock = true
  watched : (pointers events).Subperm (s.interest.map Prod.snd)
  bounded : events.length ≤ maxEvents

/-- A step of the server thread. Whether it goes on or shuts down after `processEventQueue` is up to
`_terminate`, which any thread may set, and the destructor may shut down an idle server. -/
inductive Step : Registry → Registry → Prop where
  | startListening (s) (hphase : s.phase = .idle ∨ s.phase = .down) :
      Step s { s with phase := .idle, listenSock := true }
  | processEventQueue (s) (now : Int) (toRemove : List Pointer) (hphase : s.phase = .idle)
      (hlistenSock : s.listenSock = true) (hlame : lameConnections now s = .ok toRemove) :
      Step s { s with phase := .removing toRemove }
  | removeLame (s s') (connection : Pointer) (toRemove : List Pointer) (removed : Bool)
      (hphase : s.phase = .removing (connection :: toRemove))
      (hdelete : deleteConnection connection removed s = .ok s') :
      Step s { s' with phase := .removing toRemove }
  | processed (s) (hphase : s.phase = .removing []) : Step s { s with phase := .polling }
  /-- `epoll_wait` fails. -/
  | interrupted (s) (hphase : s.phase = .polling) : Step s { s with phase := .idle }
  | ready (s) (events : List PolledEvent) (hphase : s.phase = .polling) (hevents : Reports s events) :
      Step s { s with phase := .dispatching events [] }
  | accept (s s') (bits : EventBits) (events : List PolledEvent) (toBeDeleted : List Pointer)
      (accepted : Option Descriptor) (newConnection : Pointer) (configured added removed : Bool)
      (now : Int) (hphase : s.phase = .dispatching (.listenSock bits :: events) toBeDeleted)
      (hbits : bits.unexpected = false) (hfd : ∀ fd ∈ accepted, fd ∉ s.openFds)
      (hnew : s.objects newConnection = none)
      (haccept : handleAccept accepted newConnection configured added removed now s = .ok s') :
      Step s { s' with phase := .dispatching events toBeDeleted }
  | handlePipe (s) (bits : EventBits) (events : List PolledEvent) (toBeDeleted : List Pointer)
      (hphase : s.phase = .dispatching (.eventFd bits :: events) toBeDeleted)
      (hbits : bits.unexpected = false) :
      Step s { s with phase := .dispatching events toBeDeleted }
  /-- An event the server terminates on. -/
  | unexpected (s) (event : PolledEvent) (bits : EventBits) (events : List PolledEvent)
      (toBeDeleted : List Pointer) (hphase : s.phase = .dispatching (event :: events) toBeDeleted)
      (hevent : event = .listenSock bits ∨ event = .eventFd bits) (hbits : bits.unexpected = true) :
      Step s { s with phase := .deleting toBeDeleted }
  | connection (s s') (connection : Pointer) (bits : EventBits) (events : List PolledEvent)
      (toBeDeleted : List Pointer) (received : Nat) (close : Bool)
      (hphase : s.phase = .dispatching (.connection connection bits :: events) toBeDeleted)
      (hhandle : handleConnectionEvents connection bits received s = .ok (close, s')) :
      Step s
        { s' with
          phase := .dispatching events (if close then toBeDeleted ++ [connection] else toBeDeleted) }
  /-- A handler throws, and the rest of the batch is forgotten. -/
  | thrown (s s') (connection : Pointer) (bits : EventBits) (events : List PolledEvent)
      (toBeDeleted : List Pointer) (received : Nat)
      (hphase : s.phase = .dispatching (.connection connection bits :: events) toBeDeleted)
      (hhandle : handleConnectionEvents connection bits received s = .ok (false, s')) :
      Step s { s' with phase := .idle }
  | dispatched (s) (toBeDeleted : List Pointer) (hphase : s.phase = .dispatching [] toBeDeleted) :
      Step s { s with phase := .deleting toBeDeleted }
  | delete (s s') (connection : Pointer) (toBeDeleted : List Pointer) (removed : Bool)
      (hphase : s.phase = .deleting (connection :: toBeDeleted))
      (hknown : connection ∈ s.connections.map Prod.fst)
      (hdelete : deleteConnection connection removed s = .ok s') :
      Step s { s' with phase := .deleting toBeDeleted }
  /-- A connection the server does not know, whose address it logs. -/
  | unknown (s) (connection : Pointer) (toBeDeleted : List Pointer)
      (hphase : s.phase = .deleting (connection :: toBeDeleted))
      (hunknown : connection ∉ s.connections.map Prod.fst)
      (halive : s.objects connection ≠ none) :
      Step s { s with phase := .idle }
  | deleted (s) (hphase : s.phase = .deleting []) : Step s { s with phase := .idle }
  | shutdown (s) (hphase : s.phase = .idle ∨ s.phase = .polling) :
      Step s { s with phase := .shuttingDown, listenSock := false }
  | disconnect (s s') (connection : Pointer) (connected : Int) (connections : List (Pointer × Int))
      (removed : Bool) (hphase : s.phase = .shuttingDown)
      (hconnections : s.connections = (connection, connected) :: connections)
      (hdelete : deleteConnection connection removed s = .ok s') :
      Step s s'
  | closed (s) (hphase : s.phase = .shuttingDown) (hconnections : s.connections = []) :
      Step s { s with phase := .down }

/-- A state some run of a server leads to. -/
def Reachable (s : Registry) : Prop :=
  ∃ lameConnectionTimeoutSeconds, Relation.ReflTransGen Step (fresh lameConnectionTimeoutSeconds) s

end Registry

end Seasocks
