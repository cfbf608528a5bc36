import Seasocks.Proof.Moves

/-!
# The callbacks of a WebSocket handler

A handler is installed while the header block is read, connected at the end of a handshake and
disconnected by the destructor. Between the first two the upgrade can fail, and the destructor does
not look at whether it did.
-/

namespace Seasocks.Connection

open Program Relation

variable {w : World} {c : Connection}

/-- The callbacks in a log. -/
def callbacks (calls : List Entry) : List Call :=
  (calls.map (·.call)).filter fun call => call.callee.isSome

/-- The callbacks one handler has received. -/
def callbacksOf (handler : HandlerId) (calls : List Entry) : List Call :=
  (calls.map (·.call)).filter fun call => call.callee == some handler

def IsData (handler : HandlerId) (call : Call) : Prop :=
  ∃ message, call = .onText handler message ∨ call = .onBinary handler message

@[simp]
theorem callbacks_append (calls calls' : List Entry) :
    callbacks (calls ++ calls') = callbacks calls ++ callbacks calls' := by
  simp [callbacks]

theorem callbacks_eq_nil {calls : List Entry} (h : ∀ entry ∈ calls, entry.call.callee = none) :
    callbacks calls = [] := by
  simpa [callbacks, List.filter_eq_nil_iff] using h

theorem callbacks_singleton {call : Call} {out : Output} (h : call.callee ≠ none) :
    callbacks [⟨call, out⟩] = [call] := by
  simp [callbacks, Option.isSome_iff_ne_none, h]

theorem callbacks_concat_of_none {calls : List Entry} {call : Call} {out : Output}
    (h : call.callee = none) : callbacks (calls ++ [⟨call, out⟩]) = callbacks calls := by
  have hnone : callbacks [⟨call, out⟩] = [] := callbacks_eq_nil (by simpa using h)
  rw [callbacks_append, hnone, List.append_nil]

theorem Sends.callbacks_eq {c c' : Connection} (h : Sends w c c') :
    callbacks c'.calls = callbacks c.calls := by
  obtain ⟨out, calls, rfl, -, hcalls⟩ := h.frame
  have hnone : callbacks calls = [] := callbacks_eq_nil fun entry hentry => by
    obtain ⟨input, hinput⟩ := hcalls entry hentry
    rw [hinput]
    rfl
  rw [callbacks_append, hnone, List.append_nil]

/-! ### The invariant -/

/-- Before the handshake is complete no handler has been called; afterwards the installed handler has
been connected and has received data only. -/
structure Connected (c : Connection) : Prop where
  before : ¬ IsWebSocket c → callbacks c.calls = []
  after : IsWebSocket c → ∃ handler data, c.webSocketHandler = some handler ∧
    callbacks c.calls = .onConnect handler :: data ∧ ∀ call ∈ data, IsData handler call
  awaiting : c.state = .readingWebSocketKey3 → c.webSocketHandler ≠ none

theorem connected_fresh : Connected fresh where
  before := fun _ => rfl
  after := by rintro (h | h) <;> cases h
  awaiting := by rintro ⟨⟩

/-- A step that changes nothing the invariant is about. -/
theorem Connected.frame {c' : Connection} (h : Connected c) (hstate : c'.state = c.state)
    (hhandler : c'.webSocketHandler = c.webSocketHandler)
    (hcalls : callbacks c'.calls = callbacks c.calls) : Connected c' where
  before := fun hno => by
    rw [hcalls]
    exact h.before (by rwa [IsWebSocket, ← hstate])
  after := fun hyes => by
    rw [hcalls, hhandler]
    exact h.after (by rwa [IsWebSocket, ← hstate])
  awaiting := fun hkey => by
    rw [hhandler]
    exact h.awaiting (hstate ▸ hkey)

/-- A step between states in which no handler is connected. -/
theorem Connected.ofBefore {c' : Connection} (h : Connected c) (hc : ¬ IsWebSocket c)
    (hc' : ¬ IsWebSocket c') (hcalls : callbacks c'.calls = callbacks c.calls)
    (hawaiting : c'.state = .readingWebSocketKey3 → c'.webSocketHandler ≠ none) : Connected c' where
  before := fun _ => hcalls.trans (h.before hc)
  after := fun hyes => absurd hyes hc'
  awaiting := hawaiting

theorem not_isWebSocket_of {state : State} (hstate : c.state = state)
    (hhixie : state ≠ .handlingHixieWebSocket) (hhybi : state ≠ .handlingHybiWebSocket) :
    ¬ IsWebSocket c := by
  rintro (h | h)
  · exact hhixie (hstate.symm.trans h)
  · exact hhybi (hstate.symm.trans h)

theorem Connected.write {c' : Connection} (h : Connected c) (hstep : WriteStep w c c') :
    Connected c' := by
  cases hstep with
  | send hsend =>
      exact h.frame (Sends.state_eq (ReflTransGen.single hsend)) (by cases hsend <;> rfl)
        (Sends.callbacks_eq (ReflTransGen.single hsend))
  | headers hstate =>
      exact h.ofBefore (not_isWebSocket_of hstate (by simp) (by simp)) (by simp [IsWebSocket]) rfl
        (by simp)
  | encoding encoding hstate => exact h.frame rfl rfl rfl
  | body hstate =>
      exact h.ofBefore (not_isWebSocket_of hstate (by simp) (by simp)) (by simp [IsWebSocket]) rfl
        (by simp)
  | chunk chunk hstate => exact h.frame rfl rfl rfl
  | finish hstate =>
      refine h.ofBefore ?_ (by simp [IsWebSocket]) rfl (by simp)
      rcases hstate with hstate | hstate <;> exact not_isWebSocket_of hstate (by simp) (by simp)

theorem Connected.answer {c' : Connection} (h : Connected c) (hstep : Answer w c c') :
    Connected c' := by
  cases hstep with
  | write hwrite => exact h.write hwrite
  | setHandler handler hstate =>
      have hno := not_isWebSocket_of hstate (by simp) (by simp)
      exact h.ofBefore hno hno rfl (by simp [hstate])
  | handle hstate hrequest htaken => exact h.frame rfl rfl (callbacks_concat_of_none rfl)
  | openFile path opened hstate hrequest hcalls hrange =>
      exact h.frame rfl rfl (callbacks_concat_of_none rfl)
  | respond response hstate hnone =>
      exact h.ofBefore (not_isWebSocket_of hstate (by simp) (by simp)) (by simp [IsWebSocket]) rfl
        (by simp)
  | awaitKey hstate hhandler =>
      exact h.ofBefore (not_isWebSocket_of hstate (by simp) (by simp)) (by simp [IsWebSocket]) rfl
        (by simp [hhandler])
  | @connect c₁ before request handler out hstate hhandler hverb hcalls hout hsends =>
      have hno := h.before (not_isWebSocket_of hstate (by simp) (by simp))
      refine ⟨fun hno => absurd (Or.inr rfl) hno, fun _ => ⟨handler, [], ?_, ?_, by simp⟩, by simp⟩
      · obtain ⟨out', calls', rfl, -⟩ := hsends.frame
        exact hhandler
      · dsimp only
        rw [hsends.callbacks_eq, callbacks_append, hno, callbacks_singleton (by simp [Call.callee])]
        rfl

theorem Connected.serve {c' : Connection} (h : Connected c) (hstep : Serve w c c') :
    Connected c' := by
  cases hstep with
  | answer hanswer => exact h.answer hanswer
  | initialise hstate => exact h.frame rfl rfl (callbacks_concat_of_none rfl)
  | create request hstate hcontent => exact h.frame rfl rfl rfl
  | buffer hstate hrequest hcontent hlength hbounded =>
      exact h.ofBefore (not_isWebSocket_of hstate (by simp) (by simp)) (by simp [IsWebSocket]) rfl
        (by simp)

theorem Connected.move {c' : Connection} (h : c.alive = true → Connected c) (hstep : Move w c c') :
    c'.alive = true → Connected c' := by
  intro halive
  cases hstep with
  | serve hserve =>
      rw [hserve.attached.1] at halive
      exact (h halive).serve hserve
  | headers hstate hfind => exact (h halive).frame rfl rfl (callbacks_concat_of_none rfl)
  | overwrite memory hstate hmemory => exact (h halive).frame rfl rfl rfl
  | drop count => exact (h halive).frame rfl rfl rfl
  | content hstate hrequest request' inBuf hconsume =>
      exact (h halive).ofBefore (not_isWebSocket_of hstate (by simp) (by simp))
        (by simp [IsWebSocket]) (callbacks_concat_of_none rfl) (by simp)
  | key hstate hlength => exact (h halive).frame rfl rfl (callbacks_concat_of_none rfl)
  | @connect before key out handler hstate hhandler hcalls hout =>
      have hno := (h halive).before (not_isWebSocket_of hstate (by simp) (by simp))
      refine ⟨fun hno => absurd (Or.inl rfl) hno, fun _ => ⟨handler, [], hhandler, ?_, by simp⟩, by simp⟩
      dsimp only
      rw [callbacks_append, hno, callbacks_singleton (by simp [Call.callee])]
      rfl
  | connectNobody hstate hhandler => exact absurd hhandler ((h halive).awaiting hstate)
  | message message hstate => exact (h halive).frame rfl rfl (callbacks_concat_of_none rfl)
  | frame frame hstate => exact (h halive).frame rfl rfl (callbacks_concat_of_none rfl)
  | inflate input hstate hdeflate => exact (h halive).frame rfl rfl (callbacks_concat_of_none rfl)
  | @data handler call hstate hhandler htaken hcall =>
      have hconnected := h halive
      obtain ⟨handler', data, hhandler', hcallbacks, hdata⟩ := hconnected.after hstate
      obtain rfl : handler = handler' := by simpa [hhandler] using hhandler'
      have hcallee : call.callee ≠ none := by
        obtain ⟨message, rfl | rfl⟩ := hcall <;> simp [Call.callee]
      refine ⟨fun hno => absurd hstate hno, fun _ => ⟨handler, data ++ [call], hhandler, ?_, ?_⟩, ?_⟩
      · dsimp only
        rw [callbacks_append, hcallbacks, callbacks_singleton hcallee]
        rfl
      · intro call' hcall'
        rcases List.mem_append.mp hcall' with hcall' | hcall'
        · exact hdata call' hcall'
        · rw [List.mem_singleton.mp hcall']
          exact hcall
      · exact hconnected.awaiting
  | receive received hopen => exact (h halive).frame rfl rfl rfl
  | enlarge hopen => exact (h halive).frame rfl rfl rfl
  | cancel hresponse => exact (h halive).frame rfl rfl (callbacks_concat_of_none rfl)
  | disconnect halive' hresponse hhandler hsends hout => cases halive
  | vanish halive' hresponse hhandler hout => cases halive

theorem Connected.thrown {c' : Connection} {e : Exn} (h : c.alive = true → Connected c)
    (hthrown : Thrown e c c') : c'.alive = true → Connected c' := by
  intro halive
  cases hthrown with
  | fault f => exact h halive
  | range e path hstate hrequest hcalls hrange =>
      exact (h halive).frame rfl rfl (callbacks_concat_of_none rfl)

theorem run_connected {events : List Event} (h : run w events fresh = .ok c)
    (halive : c.alive = true) : Connected c :=
  run_invariant (fun c => c.alive = true → Connected c) (fun _ _ => Connected.move)
    (fun _ _ _ => Connected.thrown) h (fun _ => connected_fresh) halive

/-! ### The destructor -/

/-- The destructor adds one callback, for the installed handler. -/
theorem destroy_callbacks (c : Connection) :
    Ends (destroy w) c
      (fun _ c' => callbacks c'.calls = callbacks c.calls
        ++ (c.webSocketHandler.map Call.onDisconnect).toList) fun _ _ => False := by
  have hcancel : Ends cancelResponse c
      (fun _ c' => callbacks c'.calls = callbacks c.calls ∧ c'.webSocketHandler = c.webSocketHandler)
      fun _ _ => False := by
    simp only [cancelResponse, record, ends_bind, ends_get, ends_ite, ends_modify, ends_pure]
    exact ⟨fun _ => ⟨callbacks_concat_of_none rfl, trivial⟩, fun _ => ⟨trivial, trivial⟩⟩
  rw [destroy, ends_bind]
  refine hcancel.mono ?_ fun _ _ => id
  rintro - c' ⟨hcalls, hhandler⟩
  rw [ends_bind, ends_get, ← hcalls, ← hhandler]
  cases hhandler' : c'.webSocketHandler with
  | none =>
      simp only [ends_bind, ends_liftOut, ends_modify]
      exact (closeFd_after _).mono fun _ _ _ => by simp
  | some handler =>
      rw [ends_bind]
      refine (callHandler_ends _ _ _).mono (fun _ c'' hsends => ?_) fun _ _ => id
      simp only [ends_bind, ends_liftOut, ends_modify]
      refine (closeFd_after _).mono fun _ _ _ => ?_
      rw [hsends.callbacks_eq, callbacks_append, callbacks_singleton (by simp [Call.callee])]
      rfl

/-! ### Whole runs -/

/-- No callback at all, or a connection, data and one disconnection. -/
def WellFormed (handler : HandlerId) (calls : List Call) : Prop :=
  calls = [] ∨ ∃ data, (∀ call ∈ data, IsData handler call) ∧
    calls = .onConnect handler :: data ++ [.onDisconnect handler]

theorem callbacksOf_eq (handler : HandlerId) (calls : List Entry) :
    callbacksOf handler calls = (callbacks calls).filter fun call => call.callee == some handler := by
  rw [callbacksOf, callbacks, List.filter_filter]
  apply List.filter_congr
  intro call _
  cases call.callee <;> simp

/-- A complete run ends in the state before the destructor with one more callback. -/
theorem run_destroy {c c' : Connection} (hdestroy : run w [.destroy] c = .ok c') :
    c.alive = true ∧ callbacks c'.calls = callbacks c.calls
      ++ (c.webSocketHandler.map Call.onDisconnect).toList := by
  have hends : Ends (step w .destroy) c
      (fun _ c' => c.alive = true ∧ callbacks c'.calls = callbacks c.calls
        ++ (c.webSocketHandler.map Call.onDisconnect).toList) fun e _ => ∃ f, e = .fault f := by
    rw [step, ends_bind, ends_get]
    dsimp only
    rw [ends_ite]
    refine ⟨fun halive => ?_, fun _ => ⟨.badPointer, rfl⟩⟩
    exact (destroy_callbacks c).mono (fun _ c' hc' => ⟨halive, hc'⟩) fun _ _ => False.elim
  rw [run] at hdestroy
  unfold Ends at hends
  split at hdestroy
  · rename_i c₁ hrun
    rw [hrun] at hends
    injection hdestroy with hdestroy
    exact hdestroy ▸ hends
  · rename_i c₁ hrun
    rw [hrun] at hends
    obtain ⟨f, hf⟩ := hends
    cases hf
  · injection hdestroy

theorem callee_of_isData {handler : HandlerId} {call : Call} (h : IsData handler call) :
    call.callee = some handler := by
  obtain ⟨message, rfl | rfl⟩ := h <;> rfl

theorem wellFormed_of_connected {handler : HandlerId} {data calls : List Call}
    (hdata : ∀ call ∈ data, IsData handler call)
    (hcalls : calls = .onConnect handler :: data ++ [.onDisconnect handler]) (handler' : HandlerId) :
    WellFormed handler' (calls.filter fun call => call.callee == some handler') := by
  have hcallee : ∀ call ∈ calls, call.callee = some handler := by
    intro call hcall
    rw [hcalls, List.cons_append, List.mem_cons, List.mem_append, List.mem_singleton] at hcall
    rcases hcall with rfl | hcall | rfl
    · rfl
    · exact callee_of_isData (hdata call hcall)
    · rfl
  by_cases hsame : handler = handler'
  · subst hsame
    right
    refine ⟨data, hdata, ?_⟩
    rw [← hcalls]
    exact List.filter_eq_self.mpr fun call hcall => by simp [hcallee call hcall]
  · left
    exact List.filter_eq_nil_iff.mpr fun call hcall => by simp [hcallee call hcall, hsame]

/-- **The callbacks of a complete run** are well-formed for every handler exactly if no handler was
installed, or the handshake was complete, when the connection was destroyed. -/
theorem callbacks_wellFormed_iff {events : List Event} {c c' : Connection}
    (h : run w events fresh = .ok c) (hdestroy : run w [.destroy] c = .ok c') :
    (∀ handler, WellFormed handler (callbacksOf handler c'.calls)) ↔
      c.webSocketHandler = none ∨ IsWebSocket c := by
  obtain ⟨halive, hcalls⟩ := run_destroy hdestroy
  have hconnected := run_connected h halive
  simp only [callbacksOf_eq]
  constructor
  · intro hwell
    by_contra hnot
    rw [not_or] at hnot
    obtain ⟨handler, hhandler⟩ := Option.ne_none_iff_exists'.mp hnot.1
    rw [hconnected.before hnot.2, hhandler] at hcalls
    have hlone : (callbacks c'.calls).filter (fun call => call.callee == some handler)
        = [.onDisconnect handler] := by
      rw [hcalls]
      simp [Call.callee]
    have hwell := hwell handler
    rw [hlone] at hwell
    rcases hwell with hnil | ⟨data, -, hsplit⟩
    · cases hnil
    · injection hsplit with hhead
      cases hhead
  · intro hcondition handler
    by_cases hsocket : IsWebSocket c
    · obtain ⟨handler', data, hhandler, hcallbacks, hdata⟩ := hconnected.after hsocket
      rw [hcallbacks, hhandler] at hcalls
      exact wellFormed_of_connected hdata hcalls handler
    · have hnone := hcondition.resolve_right hsocket
      rw [hconnected.before hsocket, hnone] at hcalls
      left
      rw [hcalls]
      rfl

/-- A handshake, a message, and the end of the connection. -/
theorem callbacks_wellFormed_iff_greeting :
    ∃ c c' : Connection,
      run World.chat
        [.readable (.data ⟨ascii ("GET /chat HTTP/1.1\r\nConnection: Upgrade\r\nUpgrade: websocket\r\n"
          ++ "Sec-WebSocket-Version: 13\r\n\r\n"), by decide⟩),
        .readable (.data ⟨[0x81, 2, 104, 105], by decide⟩)] fresh = .ok c ∧
      run World.chat [.destroy] c = .ok c' ∧
      callbacksOf 1 c'.calls = [.onConnect 1, .onText 1 (ascii "hi"), .onDisconnect 1] ∧
      ((∀ handler, WellFormed handler (callbacksOf handler c'.calls)) ↔
        c.webSocketHandler = none ∨ IsWebSocket c) := by
  have hrun : (do
      let c ← run World.chat
        [.readable (.data ⟨ascii ("GET /chat HTTP/1.1\r\nConnection: Upgrade\r\nUpgrade: websocket\r\n"
          ++ "Sec-WebSocket-Version: 13\r\n\r\n"), by decide⟩),
        .readable (.data ⟨[0x81, 2, 104, 105], by decide⟩)] fresh
      let c' ← run World.chat [.destroy] c
      return callbacksOf 1 c'.calls) =
        .ok [.onConnect 1, .onText 1 (ascii "hi"), .onDisconnect 1] := by decide +kernel
  obtain ⟨c, hc, hrun⟩ := ok_of_bind_eq_ok hrun
  obtain ⟨c', hc', hcalls⟩ := ok_of_bind_eq_ok hrun
  injection hcalls with hcalls
  exact ⟨c, c', hc, hc', hcalls, callbacks_wellFormed_iff hc hc'⟩

/-- An upgrade request without a version is answered with an error, and the handler that was never
connected is disconnected. -/
theorem not_wellFormed_of_rejected_upgrade :
    ∃ c c' : Connection,
      run World.chat
        [.readable (.data ⟨ascii
          "GET /chat HTTP/1.1\r\nConnection: Upgrade\r\nUpgrade: websocket\r\n\r\n", by decide⟩)]
        fresh = .ok c ∧
      run World.chat [.destroy] c = .ok c' ∧ ¬ WellFormed 1 (callbacksOf 1 c'.calls) := by
  have hrun : (do
      let c ← run World.chat
        [.readable (.data ⟨ascii
          "GET /chat HTTP/1.1\r\nConnection: Upgrade\r\nUpgrade: websocket\r\n\r\n", by decide⟩)] fresh
      let c' ← run World.chat [.destroy] c
      return callbacksOf 1 c'.calls) = .ok [.onDisconnect 1] := by decide +kernel
  obtain ⟨c, hc, hrun⟩ := ok_of_bind_eq_ok hrun
  obtain ⟨c', hc', hcalls⟩ := ok_of_bind_eq_ok hrun
  injection hcalls with hcalls
  refine ⟨c, c', hc, hc', ?_⟩
  rw [hcalls]
  rintro (hnil | ⟨data, -, hsplit⟩)
  · cases hnil
  · injection hsplit with hhead
    cases hhead

end Seasocks.Connection
