import Seasocks.Requests

/-!
# Runs of a connection

What the server and the application do with a connection from its construction to its destruction, in
any order.
-/

namespace Seasocks

/-- What `read` returns: up to `readWriteBufferSize` bytes but at least one, the end of the stream, or
-1. -/
inductive ReadResult where
  | data (received : { bytes : Bytes // bytes ≠ [] ∧ bytes.length ≤ readWriteBufferSize })
  | endOfStream
  | error
deriving DecidableEq, Repr

inductive Event where
  | readable (result : ReadResult)
  | writable
  /-- A response uses its writer after its `handle` has returned. -/
  | writer (call : WriterCall)
  /-- The application uses the WebSocket. -/
  | socket (call : WsCall)
  | destroy
deriving DecidableEq, Repr

namespace Connection

variable (w : World)

def handleDataReadyForRead (result : ReadResult) : ConnM Unit := do
  let c ← get
  if !c.closed then
    match result with
    | .error =>
        -- The buffer has been enlarged for the read and stays so.
        set { c with inBuf := c.inBuf ++ List.replicate readWriteBufferSize 0 }
    | .endOfStream =>
        set { c with inBuf := c.inBuf ++ List.replicate readWriteBufferSize 0 }
        closeInternal
    | .data received =>
        set
          { c with
            bytesReceived := c.bytesReceived + received.val.length
            inBuf := c.inBuf ++ received.val }
        handleNewData w

/-- `finalise` as far as it is about a pending response. -/
def cancelResponse : ConnM Unit := do
  if (← get).response.isSome then
    record .cancel
    modify fun c => { c with response := none, writer := false }

def closeFd : OutM Unit := do
  if (← get).fd then
    Output.record .closeFd
  modify fun o => { o with fd := false }

/-- The destructor, with `finalise`. -/
def destroy : ConnM Unit := do
  cancelResponse
  match (← get).webSocketHandler with
  | some handler => onDisconnect w handler
  | none => pure ()
  liftOut closeFd
  modify fun c => { c with webSocketHandler := none, alive := false }

/-- What follows the destructor can only reach the writer, which must be detached by then. -/
def step (event : Event) : ConnM Unit := do
  let c ← get
  match event with
  | .writer call =>
      if c.writer then
        if c.alive then writerCall w call else fault .badPointer
  | .readable result => if c.alive then handleDataReadyForRead w result else fault .badPointer
  | .writable =>
      if c.alive then liftOut (Output.handleDataReadyForWrite w) else fault .badPointer
  | .socket call => if c.alive then wsCall w call else fault .badPointer
  | .destroy => if c.alive then destroy w else fault .badPointer

/-- A run goes on after an exception, which leaves the connection as it was when it was thrown, and
ends where the program has no meaning. -/
def run : List Event → Connection → Except Fault Connection
  | [], c => .ok c
  | event :: events, c =>
      match (step w event).run c with
      | .ok () c | .error (.exception _) c => run events c
      | .error (.fault f) _ => .error f

end Connection

end Seasocks
