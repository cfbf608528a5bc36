import Mathlib.Algebra.Ring.Nat
import Mathlib.Data.List.Basic
import Mathlib.Logic.Function.Basic
import Mathlib.Logic.Relation

/-!
# The server's loop

`Server` as far as posting functions to its thread goes: `execute` and `terminate`, which any number
of threads call, and `loop` and `poll` on the server thread. A step is what a thread does between two
points at which another one can notice it.
-/

namespace Seasocks

variable {Thread Executable : Type}

/-- A call of `execute`. -/
structure Post (Thread Executable : Type) where
  poster : Thread
  toExecute : Executable
deriving DecidableEq, Repr

/-- Where a thread is in `execute` or `terminate`. -/
inductive Caller where
  | outside
  /-- Holding `_pendingExecutableMutex`. -/
  | locked
  /-- Between the unlock and the write to the eventfd. -/
  | posted
  | terminating
deriving DecidableEq, Repr

inductive MutexHolder (Thread Executable : Type) where
  | execute (post : Post Thread Executable)
  | runExecutables
deriving DecidableEq, Repr

inductive Subject where
  | listenSock
  | eventFd
  | connection
deriving DecidableEq, Repr

/-- An event that `epoll_wait` returns; `unexpected` if it is more than `EPOLLIN`. -/
structure EpollEvent where
  subject : Subject
  unexpected : Bool
deriving DecidableEq, Repr

/-- Where the server thread is. -/
inductive Phase where
  /-- Not in `loop` or `poll`. -/
  | outside
  /-- Before a look at `_terminate`. -/
  | testing
  /-- At the start of `processEventQueue`. -/
  | processing
  /-- In `runExecutables`, holding the mutex. -/
  | swapping
  /-- Between two functions of the batch. -/
  | running
  | calling
  /-- Looking for lame connections. -/
  | checking
  /-- About to block in `epoll_wait`. -/
  | waiting
  | dispatching (events : List EpollEvent)
  /-- In `handlePipe`. -/
  | draining (events : List EpollEvent)
  /-- In `handleConnectionEvents`. -/
  | handling (events : List EpollEvent)
  /-- Deleting connections after the events. -/
  | deleting
  | shuttingDown
deriving DecidableEq, Repr

/-- Whether the server thread may be running code of the application (the function called, handlers
or the logger), which may call `execute` and `terminate`. -/
def Phase.callsOut : Phase → Bool
  | .outside | .calling | .checking | .dispatching _ | .handling _ | .deleting | .shuttingDown => true
  | .testing | .processing | .swapping | .running | .waiting | .draining _ => false

/-- `_eventFd` with its counter, `none` if it could not be created. `copy` is what is left of the
batch `runExecutables` detached. The last three fields are histories: the posts in the order in which
they took the mutex, those appended, and those whose function has been called. -/
structure Server (Thread Executable : Type) where
  listenSock : Bool
  eventFd : Option Nat
  pendingExecutables : List (Post Thread Executable)
  mutex : Option (MutexHolder Thread Executable)
  terminate : Bool
  callers : Thread → Caller
  phase : Phase
  /-- Whether the server thread is in `poll` rather than `loop`. -/
  polling : Bool
  /-- Whether `processEventQueue` is the one after `_terminate` was seen. -/
  last : Bool
  copy : List (Post Thread Executable)
  locked : List (Post Thread Executable)
  posted : List (Post Thread Executable)
  executed : List (Post Thread Executable)

namespace Server

def fresh (eventFd : Option Nat) : Server Thread Executable :=
  { listenSock := false
    eventFd
    pendingExecutables := []
    mutex := none
    terminate := false
    callers := fun _ => .outside
    phase := .outside
    polling := false
    last := false
    copy := []
    locked := []
    posted := []
    executed := [] }

/-- Whether a read of the eventfd would succeed. -/
def signalled (s : Server Thread Executable) : Bool :=
  match s.eventFd with
  | some count => 0 < count
  | none => false

/-- A write of 1 to an eventfd, which would block rather than let the counter reach its maximum. -/
def writeOne (count : Nat) : Nat := if count < 2 ^ 64 - 2 then count + 1 else count

/-- A step of the server thread in `loop` or `poll`. -/
inductive LoopStep : Server Thread Executable → Server Thread Executable → Prop where
  | startListening (s) (hphase : s.phase = .outside) (heventFd : s.eventFd ≠ none) :
      LoopStep s { s with listenSock := true }
  | loop (s) (hphase : s.phase = .outside) (hlistenSock : s.listenSock = true) :
      LoopStep s { s with phase := .testing, polling := false, last := false }
  | poll (s) (hphase : s.phase = .outside) (hlistenSock : s.listenSock = true) :
      LoopStep s { s with phase := .processing, polling := true, last := false }
  /-- `_terminate` is not set: the next turn of the loop, or the end of a `poll`. -/
  | goOn (s) (hphase : s.phase = .testing) (hterminate : s.terminate = false) :
      LoopStep s { s with phase := if s.polling then .outside else .processing }
  | finish (s) (hphase : s.phase = .testing) (hterminate : s.terminate = true) :
      LoopStep s { s with phase := .processing, last := true }
  | lock (s) (hphase : s.phase = .processing) (hmutex : s.mutex = none) :
      LoopStep s { s with phase := .swapping, mutex := some .runExecutables }
  | swap (s) (hphase : s.phase = .swapping) :
      LoopStep s
        { s with
          phase := .running
          mutex := none
          copy := s.pendingExecutables
          pendingExecutables := [] }
  | call (s) (post : Post Thread Executable) (rest : List (Post Thread Executable))
      (hphase : s.phase = .running) (hcopy : s.copy = post :: rest) :
      LoopStep s { s with phase := .calling, copy := rest, executed := s.executed ++ [post] }
  | returned (s) (hphase : s.phase = .calling) : LoopStep s { s with phase := .running }
  | batchDone (s) (hphase : s.phase = .running) (hcopy : s.copy = []) :
      LoopStep s { s with phase := .checking }
  | checked (s) (hphase : s.phase = .checking) :
      LoopStep s { s with phase := if s.last then .shuttingDown else .waiting }
  /-- `epoll_wait` fails, with `EINTR` or otherwise. -/
  | interrupted (s) (hphase : s.phase = .waiting) : LoopStep s { s with phase := .testing }
  /-- `epoll_wait` returns events, or none after the time-out. -/
  | ready (s) (events : List EpollEvent) (hphase : s.phase = .waiting)
      (heventFd : (∃ event ∈ events, event.subject = .eventFd) → s.signalled = true) :
      LoopStep s { s with phase := .dispatching events }
  | unexpected (s) (event : EpollEvent) (events : List EpollEvent)
      (hphase : s.phase = .dispatching (event :: events)) (hsubject : event.subject ≠ .connection)
      (hunexpected : event.unexpected = true) :
      LoopStep s { s with phase := .deleting, terminate := true }
  | accept (s) (event : EpollEvent) (events : List EpollEvent)
      (hphase : s.phase = .dispatching (event :: events)) (hsubject : event.subject = .listenSock)
      (hexpected : event.unexpected = false) :
      LoopStep s { s with phase := .dispatching events }
  | pipe (s) (event : EpollEvent) (events : List EpollEvent)
      (hphase : s.phase = .dispatching (event :: events)) (hsubject : event.subject = .eventFd)
      (hexpected : event.unexpected = false) :
      LoopStep s { s with phase := .draining events }
  | connection (s) (event : EpollEvent) (events : List EpollEvent)
      (hphase : s.phase = .dispatching (event :: events)) (hsubject : event.subject = .connection) :
      LoopStep s { s with phase := .handling events }
  /-- A read that succeeds. -/
  | read (s) (events : List EpollEvent) (hphase : s.phase = .draining events)
      (hsignalled : s.signalled = true) :
      LoopStep s { s with eventFd := some 0 }
  /-- The read that fails with `EAGAIN`, which is `EWOULDBLOCK` where there are eventfds. -/
  | drained (s) (events : List EpollEvent) (hphase : s.phase = .draining events)
      (hdrained : s.signalled = false) :
      LoopStep s { s with phase := .dispatching events }
  | handled (s) (events : List EpollEvent) (hphase : s.phase = .handling events) :
      LoopStep s { s with phase := .dispatching events }
  | dispatched (s) (hphase : s.phase = .dispatching []) : LoopStep s { s with phase := .deleting }
  | deleted (s) (hphase : s.phase = .deleting) : LoopStep s { s with phase := .testing }
  /-- A connection to be deleted that the server does not know. -/
  | unknown (s) (hphase : s.phase = .deleting) :
      LoopStep s { s with phase := .testing, terminate := true }
  | shutDown (s) (hphase : s.phase = .shuttingDown) :
      LoopStep s { s with phase := .outside, listenSock := false }

variable [DecidableEq Thread]

/-- Whether `thread` is at a point where it may call `execute` or `terminate`. -/
def MayCall (server : Thread) (s : Server Thread Executable) (thread : Thread) : Prop :=
  s.callers thread = .outside ∧ (thread = server → s.phase.callsOut = true)

instance (server : Thread) (s : Server Thread Executable) (thread : Thread) :
    Decidable (MayCall server s thread) :=
  inferInstanceAs (Decidable (_ ∧ _))

/-- A step of any thread. Only the holder of the mutex looks at `_pendingExecutables`, so appending to
it and the unlock that follows are one step, as `swap` and its unlock are. -/
inductive Step (server : Thread) : Server Thread Executable → Server Thread Executable → Prop where
  | lock (s) (post : Post Thread Executable) (hcaller : MayCall server s post.poster)
      (hmutex : s.mutex = none) :
      Step server s
        { s with
          mutex := some (.execute post)
          callers := Function.update s.callers post.poster .locked
          locked := s.locked ++ [post] }
  | append (s) (post : Post Thread Executable) (hcaller : s.callers post.poster = .locked)
      (hmutex : s.mutex = some (.execute post)) :
      Step server s
        { s with
          mutex := none
          callers := Function.update s.callers post.poster .posted
          pendingExecutables := s.pendingExecutables ++ [post]
          posted := s.posted ++ [post] }
  | terminate (s) (thread : Thread) (hcaller : MayCall server s thread) :
      Step server s
        { s with
          terminate := true
          callers := Function.update s.callers thread .terminating }
  | write (s) (thread : Thread)
      (hcaller : s.callers thread = .posted ∨ s.callers thread = .terminating) :
      Step server s
        { s with
          eventFd := s.eventFd.map writeOne
          callers := Function.update s.callers thread .outside }
  | loop (s s') (hcaller : s.callers server = .outside) (h : LoopStep s s') : Step server s s'

end Server

end Seasocks
