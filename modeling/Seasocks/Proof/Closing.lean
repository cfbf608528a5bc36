import Mathlib.Data.List.Chain
import Seasocks.Proof.Moves
import Seasocks.Proof.OutputFlags

/-!
# Calls after the connection is closed

Whether the connection is closed or closing is tested when a read event arrives and by nothing that
takes requests, frames and messages from a buffer that is already filled. What is taken while the
connection is open is delivered while it is open, unless the response to a handshake fails.
-/

namespace Seasocks.Connection

open Program Relation

variable {w : World} {c : Connection}

/-! ### What is called when -/

/-- The calls that deliver something to the application. -/
def isDelivery : Call → Bool
  | .handle _ | .onConnect _ | .onText _ _ | .onBinary _ _ => true
  | _ => false

def isConnect : Call → Bool
  | .onConnect _ => true
  | _ => false

/-- Every header block, body, key, message and frame is taken from the input buffer while the
connection is neither closed nor closing. -/
def TakenOpen (calls : List Entry) : Prop :=
  ∀ entry ∈ calls, entry.call.isTaken = true → entry.out.closing = false

/-- The response to a handshake, written between the entry before `onConnect` and that call, meets
neither a socket error nor an overflow. -/
def HandshakeSent (entry connect : Entry) : Prop :=
  isConnect connect.call = true →
    ∀ event ∈ connect.out.log.drop entry.out.log.length, Output.isFailure event = false

def HandshakesSent (calls : List Entry) : Prop := calls.IsChain HandshakeSent

def DeliveredOpen (calls : List Entry) : Prop :=
  ∀ entry ∈ calls, isDelivery entry.call = true → entry.out.closing = false

instance (calls : List Entry) : Decidable (TakenOpen calls) :=
  inferInstanceAs (Decidable (∀ entry ∈ calls, _ → _))

instance : DecidableRel HandshakeSent := fun _ _ => inferInstanceAs (Decidable (_ → ∀ _ ∈ _, _))

instance (calls : List Entry) : Decidable (HandshakesSent calls) :=
  inferInstanceAs (Decidable (calls.IsChain HandshakeSent))

instance (calls : List Entry) : Decidable (DeliveredOpen calls) :=
  inferInstanceAs (Decidable (∀ entry ∈ calls, _ → _))

theorem TakenOpen.of_append {calls calls' : List Entry} (h : TakenOpen (calls ++ calls')) :
    TakenOpen calls := fun entry hentry => h entry (List.mem_append_left _ hentry)

theorem HandshakesSent.of_append {calls calls' : List Entry}
    (h : HandshakesSent (calls ++ calls')) : HandshakesSent calls := List.IsChain.left_of_append h

theorem DeliveredOpen.append {calls calls' : List Entry} (h : DeliveredOpen calls)
    (h' : DeliveredOpen calls') : DeliveredOpen (calls ++ calls') := by
  intro entry hentry
  rcases List.mem_append.mp hentry with hentry | hentry
  · exact h entry hentry
  · exact h' entry hentry

/-! ### The invariant -/

/-- What is taken while the connection is open is delivered while it is open. -/
def Ordered (c : Connection) : Prop :=
  TakenOpen c.calls → HandshakesSent c.calls → DeliveredOpen c.calls

/-- A step that appends `calls` to the log. -/
theorem Ordered.append {c' : Connection} (h : Ordered c) (calls : List Entry)
    (hcalls : c'.calls = c.calls ++ calls)
    (hnew : TakenOpen c.calls → HandshakesSent (c.calls ++ calls) → DeliveredOpen c.calls →
      DeliveredOpen calls) : Ordered c' := by
  intro htaken hsent
  rw [hcalls] at *
  have hold := h htaken.of_append hsent.of_append
  exact hold.append (hnew htaken.of_append hsent hold)

/-- A step that delivers nothing. -/
theorem Ordered.quiet {c' : Connection} (h : Ordered c) (calls : List Entry)
    (hcalls : c'.calls = c.calls ++ calls)
    (hquiet : ∀ entry ∈ calls, isDelivery entry.call = false) : Ordered c' :=
  h.append _ hcalls fun _ _ _ entry hentry hdelivery => by
    rw [hquiet entry hentry] at hdelivery
    cases hdelivery

theorem Ordered.record {c' : Connection} {call : Call} {out : Output} (h : Ordered c)
    (hcalls : c'.calls = c.calls ++ [⟨call, out⟩]) (hquiet : isDelivery call = false) :
    Ordered c' := h.quiet _ hcalls (by simpa using hquiet)

theorem Ordered.same {c' : Connection} (h : Ordered c) (hcalls : c'.calls = c.calls) : Ordered c' :=
  h.quiet [] (by rw [hcalls, List.append_nil]) (by simp)

/-- A delivery right after something was taken. -/
theorem Ordered.deliver {c' : Connection} {call : Call} (h : Ordered c)
    (hcalls : c'.calls = c.calls ++ [⟨call, c.out⟩]) (htaken : JustTaken c.calls c.out) : Ordered c' :=
  h.append _ hcalls fun hopen _ _ entry hentry _ => by
    obtain ⟨taken, hmem, hisTaken, hout⟩ := htaken
    rw [List.mem_singleton.mp hentry, ← hout]
    exact hopen taken hmem hisTaken

/-- The connection of a handler behind the handshake response. -/
theorem deliveredOpen_connect {before : List Entry} (entry : Entry) {handler : HandlerId}
    {out : Output} (hentry : entry.out.closing = false)
    (hsent : HandshakesSent (before ++ [entry] ++ [⟨.onConnect handler, out⟩]))
    (hout : ReflTransGen (Output.BufferStep w) entry.out out) :
    DeliveredOpen [⟨.onConnect handler, out⟩] := by
  obtain ⟨events, hlog, hclosing, -⟩ := Output.quiet_of_bufferSteps hout
  rw [HandshakesSent, List.append_assoc, List.singleton_append, List.isChain_append_cons_cons]
    at hsent
  have hquiet := hsent.2.1 rfl
  rw [hlog, List.drop_left] at hquiet
  intro connect hconnect _
  rw [List.mem_singleton.mp hconnect]
  exact hclosing hentry hquiet

theorem Sends.delivery {c c' : Connection} (h : Sends w c c') :
    ∃ calls, c'.calls = c.calls ++ calls ∧ ∀ entry ∈ calls, isDelivery entry.call = false := by
  obtain ⟨out, calls, rfl, -, hcalls⟩ := h.frame
  refine ⟨calls, rfl, fun entry hentry => ?_⟩
  obtain ⟨input, hinput⟩ := hcalls entry hentry
  rw [hinput]
  rfl

theorem Ordered.answer {c' : Connection} (h : Ordered c) (hstep : Answer w c c') : Ordered c' := by
  cases hstep with
  | write hwrite =>
      cases hwrite with
      | send hsend =>
          obtain ⟨calls, hcalls, hquiet⟩ := Sends.delivery (ReflTransGen.single hsend)
          exact h.quiet _ hcalls hquiet
      | _ => exact h.same rfl
  | setHandler handler hstate => exact h.same rfl
  | handle hstate hrequest htaken => exact h.deliver rfl htaken
  | openFile path opened hstate hrequest hcalls hrange => exact h.record rfl rfl
  | respond response hstate hnone => exact h.same rfl
  | awaitKey hstate hhandler => exact h.same rfl
  | @connect c₁ before request handler out hstate hhandler hverb hcalls hout hsends =>
      obtain ⟨calls, hcalls', hquiet⟩ := Sends.delivery hsends
      refine h.append ([⟨.onConnect handler, out⟩] ++ calls) (by simp [hcalls']) ?_
      intro _ hsent hold
      refine DeliveredOpen.append ?_ fun entry hentry hdelivery => ?_
      · rw [hcalls, ← List.append_assoc] at hsent
        refine deliveredOpen_connect ⟨.handle request, c.out⟩ ?_ hsent.of_append hout
        exact hold _ (by simp [hcalls]) rfl
      · rw [hquiet entry hentry] at hdelivery
        cases hdelivery

theorem Ordered.serve {c' : Connection} (h : Ordered c) (hstep : Serve w c c') : Ordered c' := by
  cases hstep with
  | answer hanswer => exact h.answer hanswer
  | initialise hstate => exact h.record rfl rfl
  | create request hstate hcontent => exact h.same rfl
  | buffer hstate hrequest hcontent hlength hbounded => exact h.same rfl

theorem Ordered.move {c' : Connection} (h : Ordered c) (hstep : Move w c c') : Ordered c' := by
  cases hstep with
  | serve hserve => exact h.serve hserve
  | headers hstate hfind => exact h.record rfl rfl
  | overwrite memory hstate hmemory => exact h.same rfl
  | drop count => exact h.same rfl
  | content hstate hrequest request' inBuf hconsume => exact h.record rfl rfl
  | key hstate hlength => exact h.record rfl rfl
  | @connect before key out handler hstate hhandler hcalls hout =>
      refine h.append [⟨.onConnect handler, c.out⟩] rfl fun hopen hsent _ => ?_
      rw [hcalls] at hsent
      refine deliveredOpen_connect ⟨.key key, out⟩ ?_ hsent hout
      exact hopen _ (by simp [hcalls]) rfl
  | connectNobody hstate hhandler => exact h.same rfl
  | message message hstate => exact h.record rfl rfl
  | frame frame hstate => exact h.record rfl rfl
  | inflate input hstate hdeflate => exact h.record rfl rfl
  | data hstate hhandler htaken hcall => exact h.deliver rfl htaken
  | receive received hopen => exact h.same rfl
  | enlarge hopen => exact h.same rfl
  | cancel hresponse => exact h.record rfl rfl
  | @disconnect c₁ handler out halive hresponse hhandler hsends hout =>
      obtain ⟨calls, hcalls, hquiet⟩ := Sends.delivery hsends
      refine h.quiet ([⟨.onDisconnect handler, c.out⟩] ++ calls) (by simp [hcalls]) ?_
      intro entry hentry
      rcases List.mem_append.mp hentry with hentry | hentry
      · rw [List.mem_singleton.mp hentry]
        rfl
      · exact hquiet entry hentry
  | vanish halive hresponse hhandler hout => exact h.same rfl

theorem Ordered.thrown {c' : Connection} {e : Exn} (h : Ordered c) (hthrown : Thrown e c c') :
    Ordered c' := by
  cases hthrown with
  | fault f => exact h
  | range e path hstate hrequest hcalls hrange => exact h.record rfl rfl

/-- **No calls after a close**, in every run in which everything is taken from the input buffer while
the connection is open, and no handshake response fails. -/
theorem run_deliveredOpen {events : List Event} (h : run w events fresh = .ok c)
    (htaken : TakenOpen c.calls) (hsent : HandshakesSent c.calls) : DeliveredOpen c.calls :=
  run_invariant Ordered (fun _ _ => Ordered.move) (fun _ _ _ => Ordered.thrown) h
    (fun _ _ entry hentry => by cases hentry) htaken hsent

/-- A WebSocket connection that has received one message. -/
theorem run_deliveredOpen_text :
    ∃ c, run World.chat
        [.readable (.data ⟨ascii ("GET /chat HTTP/1.1\r\nConnection: Upgrade\r\n"
            ++ "Upgrade: websocket\r\nSec-WebSocket-Version: 13\r\n\r\n"), by decide⟩),
          .readable (.data ⟨[0x81, 2, 104, 105], by decide⟩)] fresh = .ok c ∧
      (c.calls.map Entry.call).getLast? = some (.onText 1 (ascii "hi")) ∧ DeliveredOpen c.calls := by
  have hrun : (do
      let c ← run World.chat
        [.readable (.data ⟨ascii ("GET /chat HTTP/1.1\r\nConnection: Upgrade\r\n"
            ++ "Upgrade: websocket\r\nSec-WebSocket-Version: 13\r\n\r\n"), by decide⟩),
          .readable (.data ⟨[0x81, 2, 104, 105], by decide⟩)] fresh
      return decide (TakenOpen c.calls ∧ HandshakesSent c.calls ∧
        (c.calls.map Entry.call).getLast? = some (.onText 1 (ascii "hi"))))
      = (.ok true : Except Fault Bool) := by
    decide +kernel
  obtain ⟨c, hc, hrun⟩ := ok_of_bind_eq_ok hrun
  injection hrun with hrun
  obtain ⟨htaken, hsent, hlast⟩ := of_decide_eq_true hrun
  exact ⟨c, hc, hlast, run_deliveredOpen hc htaken hsent⟩

/-- Two requests in one read: the error page for the first closes the connection, and the page
handlers are asked about the second. -/
theorem not_deliveredOpen_behind_error :
    ∃ c, run World.plain
        [.readable (.data ⟨ascii "GET /a HTTP/1.1\r\n\r\nGET /b HTTP/1.1\r\n\r\n", by decide⟩)]
        fresh = .ok c ∧ ¬ DeliveredOpen c.calls := by
  have hrun : (do
      let c ← run World.plain
        [.readable (.data ⟨ascii "GET /a HTTP/1.1\r\n\r\nGET /b HTTP/1.1\r\n\r\n", by decide⟩)]
        fresh
      return decide (¬ DeliveredOpen c.calls)) = .ok true := by
    decide +kernel
  obtain ⟨c, hc, hrun⟩ := ok_of_bind_eq_ok hrun
  injection hrun with hrun
  exact ⟨c, hc, of_decide_eq_true hrun⟩

end Seasocks.Connection
