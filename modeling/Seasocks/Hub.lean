import Seasocks.Library.Reactor
import Seasocks.Run

/-!
# Connections that share a handler

Any number of connections on one server thread, with WebSocket handlers that keep a state between the
callbacks and use every WebSocket they know. The handlers are those of `ws_echo.cpp` and `ws_chatroom.cpp`.
-/

namespace Seasocks

/-- A callback, by its connection and the log of that connection, which ends with it. -/
structure Callback where
  connection : Nat
  calls : List Entry
deriving DecidableEq, Repr

def Callback.call (callback : Callback) : Option Call := callback.calls.getLast?.map (·.call)

/-- The WebSocket handlers of an application: the reaction to a callback is the new state, with the uses
made of WebSockets before the callback returns. -/
abbrev Handlers (σ : Type) := Reactor σ Callback Nat WsCall

/-- The callbacks in the second log, which continues the first. -/
def callbacksIn (connection : Nat) : List Entry → List Entry → List Callback
  | _, [] => []
  | before, entry :: calls =>
      let later := callbacksIn connection (before ++ [entry]) calls
      if entry.call.callee.isSome then ⟨connection, before ++ [entry]⟩ :: later else later

namespace Handlers

variable {σ : Type} (handlers : Handlers σ)

/-- What the last callback of a log uses its own connection for. The handlers had the state `s` when the
log was `before`. -/
def answer (s : σ) (connection : Nat) (before calls : List Entry) : List WsCall :=
  let callbacks := callbacksIn connection before (calls.drop before.length)
  match callbacks.getLast? with
  | none => []
  | some callback =>
      Reactor.mailFor connection (handlers.react callback (handlers.replay callbacks.dropLast s).1).2

end Handlers

/-- The world of a connection whose callbacks are those of the handlers. -/
def World.serving {σ : Type} (w : World) (handlers : Handlers σ) (s : σ) (connection : Nat)
    (before : List Entry) : World :=
  { w with
    onConnect := fun calls _ => handlers.answer s connection before calls
    onText := fun calls _ _ => handlers.answer s connection before calls
    onBinary := fun calls _ _ => handlers.answer s connection before calls
    onDisconnect := fun calls _ => handlers.answer s connection before calls }

/-- The connections in the order of their construction, the state of the handlers, and all callbacks so
far. -/
structure Hub (σ : Type) where
  connections : List Connection
  state : σ
  history : List Callback

namespace Hub

variable {σ : Type}

def start (s : σ) : Hub σ := { connections := [], state := s, history := [] }

/-- What happens on the server thread. The handlers use their WebSockets in callbacks only. -/
inductive Event where
  | accept
  | readable (connection : Nat) (result : ReadResult)
  | writable (connection : Nat)
  | writer (connection : Nat) (call : WriterCall)
  | destroy (connection : Nat)
deriving DecidableEq, Repr

/-- A use of a WebSocket, by the pointer to it. -/
def use (worlds : Nat → World) (connection : Nat) (call : WsCall) (h : Hub σ) : Except Fault (Hub σ) :=
  match h.connections[connection]? with
  | none => .error .badPointer
  | some c =>
      match (Connection.step (worlds connection) (.socket call)).run c with
      | .ok () c | .error (.exception _) c => .ok { h with connections := h.connections.set connection c }
      | .error (.fault f) _ => .error f

def uses (worlds : Nat → World) : List (Nat × WsCall) → Hub σ → Except Fault (Hub σ)
  | [], h => .ok h
  | (connection, call) :: rest, h => do
      let h ← use worlds connection call h
      uses worlds rest h

variable (worlds : Nat → World) (handlers : Handlers σ)

/-- An event of one connection. What the callbacks do with other connections makes no difference to this
one, so they can do it when the event is over. -/
def stepConnection (connection : Nat) (event : Seasocks.Event) (h : Hub σ) : Except Fault (Hub σ) :=
  match h.connections[connection]? with
  | none => .error .badPointer
  | some c =>
      let w := (worlds connection).serving handlers h.state connection c.calls
      match (Connection.step w event).run c with
      | .ok () c' | .error (.exception _) c' =>
          let callbacks := callbacksIn connection c.calls (c'.calls.drop c.calls.length)
          let (s, sent) := handlers.replay callbacks h.state
          uses worlds (Reactor.mailExcept connection sent)
            { connections := h.connections.set connection c'
              state := s
              history := h.history ++ callbacks }
      | .error (.fault f) _ => .error f

def step : Event → Hub σ → Except Fault (Hub σ)
  | .accept, h => .ok { h with connections := h.connections ++ [Connection.fresh] }
  | .readable connection result, h => stepConnection worlds handlers connection (.readable result) h
  | .writable connection, h => stepConnection worlds handlers connection .writable h
  | .writer connection call, h => stepConnection worlds handlers connection (.writer call) h
  | .destroy connection, h => stepConnection worlds handlers connection .destroy h

def run : List Event → Hub σ → Except Fault (Hub σ)
  | [], h => .ok h
  | event :: events, h => do
      let h ← step worlds handlers event h
      run events h

end Hub

/-! ### The sample handlers -/

/-- `EchoHandler` of `ws_echo.cpp`. -/
def echoHandler : Handlers Unit where
  react callback _ :=
    match callback.call with
    | some (.onText _ data) => ((), [(callback.connection, .sendText (cString data))])
    | some (.onBinary _ data) => ((), [(callback.connection, .sendBinary data)])
    | _ => ((), [])

/-- `Handler` of `ws_chatroom.cpp`, whose `_cons` is ordered by address. `username` is what the
credentials of the connection say when a callback is made. -/
def chatroomHandler (username : Callback → Bytes) : Handlers (OrderedSet Nat) where
  react callback cons :=
    let send (msg : Bytes) (cons : OrderedSet Nat) : List (Nat × WsCall) :=
      cons.elements.map fun con => (con, .sendText msg)
    match callback.call with
    | some (.onConnect _) =>
        let cons := cons.insert callback.connection
        (cons, send (username callback ++ ascii " has joined") cons)
    | some (.onDisconnect _) =>
        let cons := cons.erase callback.connection
        (cons, send (username callback ++ ascii " has left") cons)
    | some (.onText _ data) => (cons, send (username callback ++ ascii ": " ++ cString data) cons)
    | _ => (cons, [])

end Seasocks
