import Seasocks.Proof.Hub

/-!
# The sample handlers

`ws_echo.cpp` sends every client its own messages and nothing else. `ws_chatroom.cpp` keeps the pointers of
all its WebSockets and uses them in the callbacks of the others, so it rests on their lifetime: a pointer
comes with `onConnect`, and `onDisconnect` takes it away before the destructor has done its work.
-/

namespace Seasocks

open Program Relation WebSocketFrame HybiPacketDecoder Connection

variable {worlds : Nat → World} {connection : Nat} {c c' : Connection}

/-! ### The chatroom -/

section Chatroom

variable {username : Callback → Bytes}

/-- What a callback means in the chatroom. -/
def chatPart (username : Callback → Bytes) (callback : Callback) : Reactor.Part Nat WsCall :=
  match callback.call with
  | some (.onConnect _) =>
      .join callback.connection (.sendText (username callback ++ ascii " has joined"))
  | some (.onDisconnect _) =>
      .leave callback.connection (.sendText (username callback ++ ascii " has left"))
  | some (.onText _ data) => .say (.sendText (username callback ++ ascii ": " ++ cString data))
  | _ => .nothing

/-- The messages a history comes to in the chatroom. -/
def announcements (username : Callback → Bytes) (history : List Callback) : List HybiPacketDecoder.Message :=
  spoken (history.filterMap fun callback => (chatPart username callback).announcement)

theorem chatroomHandler_eq : chatroomHandler username = Reactor.room (chatPart username) := by
  have hreact : (chatroomHandler username).react = (Reactor.room (chatPart username)).react := by
    funext callback cons
    simp only [chatroomHandler, Reactor.room, chatPart]
    rcases callback.call with _ | call
    · rfl
    · cases call <;> rfl
  exact congrArg Reactor.mk hreact

theorem chatPart_of_isData {callback : Callback} {call : Call} {handler : HandlerId}
    (hcall : callback.call = some call) (hdata : IsData handler call) (address : Nat) (announcement : WsCall) :
    chatPart username callback ≠ .leave address announcement := by
  obtain ⟨message, rfl | rfl⟩ := hdata <;> rw [chatPart, hcall] <;> rintro ⟨⟩

theorem connection_of_join {callback : Callback} {address : Nat} {announcement : WsCall}
    (h : chatPart username callback = .join address announcement) :
    callback.connection = address ∧ ∃ handler, callback.call = some (.onConnect handler) := by
  rw [chatPart] at h
  split at h
  · rename_i handler hcall
    injection h with haddress
    exact ⟨haddress, handler, hcall⟩
  · cases h
  · cases h
  · cases h

theorem connection_of_leave {callback : Callback} {address : Nat} {announcement : WsCall}
    (h : chatPart username callback = .leave address announcement) : callback.connection = address := by
  rw [chatPart] at h
  split at h
  · cases h
  · injection h
  · cases h
  · cases h

/-- A WebSocket does not leave while its connection is alive. -/
theorem stays_of_data {later : List Callback} {handler : HandlerId}
    (hdata : ∀ callback ∈ later, callback.connection = connection →
      ∃ call, callback.call = some call ∧ IsData handler call) :
    ∀ callback ∈ later, ∀ announcement, chatPart username callback ≠ .leave connection announcement := by
  intro callback hcallback announcement hleave
  obtain ⟨call, hcall, hisData⟩ := hdata callback hcallback (connection_of_leave hleave)
  exact chatPart_of_isData hcall hisData connection announcement hleave

namespace Hub

variable {h h' : Hub (OrderedSet Nat)} {s₀ : OrderedSet Nat}

/-- Who is in the chatroom has been connected. -/
theorem Invariant.isWebSocket_of_mem (hinv : Invariant worlds (chatroomHandler username) .empty h)
    (hc : h.connections[connection]? = some c) (halive : c.alive = true) (hmem : connection ∈ h.state) :
    IsWebSocket c := by
  rw [hinv.state, chatroomHandler_eq] at hmem
  rcases Reactor.mem_of_mem_replay_room hmem with hnone | ⟨callback, hcallback, announcement, hjoin⟩
  · exact absurd hnone (OrderedSet.notMem_empty _)
  · obtain ⟨hsame, -⟩ := connection_of_join hjoin
    have hown : callback ∈ h.history.filter fun callback => callback.connection = connection :=
      List.mem_filter.mpr ⟨hcallback, by simpa using hsame⟩
    rw [hinv.own connection c hc] at hown
    obtain ⟨call, hcall, -⟩ := call_of_mem_callbacksIn hown
    by_contra hsocket
    rw [((hinv.regular connection c hc).connected halive).before hsocket] at hcall
    cases hcall

/-- Only connections that are alive are in the chatroom. -/
def Peopled (h : Hub (OrderedSet Nat)) : Prop :=
  ∀ connection ∈ h.state, ∃ c, h.connections[connection]? = some c ∧ c.alive = true

theorem Peopled.joined {callbacks : List Callback} {member : Nat} {s : OrderedSet Nat}
    (hown : ∀ callback ∈ callbacks, callback.connection = connection)
    (hmem : member ∈ ((chatroomHandler username).replay callbacks s).1) : member ∈ s ∨ member = connection := by
  rw [chatroomHandler_eq] at hmem
  rcases Reactor.mem_of_mem_replay_room hmem with hold | ⟨callback, hcallback, announcement, hjoin⟩
  · exact Or.inl hold
  · exact Or.inr ((connection_of_join hjoin).1.symm.trans (hown callback hcallback))

/-- The destructor leaves the chatroom. -/
theorem not_mem_of_destroy {w : World} (hinv : Invariant worlds (chatroomHandler username) .empty h)
    (hc : h.connections[connection]? = some c) (hcontinues : Continues (Connection.step w .destroy) c c') :
    connection ∉ ((chatroomHandler username).replay
      (callbacksIn connection c.calls (c'.calls.drop c.calls.length)) h.state).1 := by
  obtain ⟨calls, hcalls⟩ := hcontinues.calls_grow
  have hcallbacks := hcontinues.destroy_callbacks
  rw [← hcalls, callbacks_append, List.append_cancel_left_eq] at hcallbacks
  rw [← hcalls, List.drop_left]
  have hmap := map_call_callbacksIn connection c.calls calls
  rw [hcallbacks] at hmap
  cases hhandler : c.webSocketHandler with
  | none =>
      rw [hhandler] at hmap
      rw [List.map_eq_nil_iff.mp hmap]
      intro hmem
      have halive := hcontinues.destroyed.1
      obtain ⟨handler, data, hsome, -⟩ := ((hinv.regular connection c hc).connected halive).after
        (hinv.isWebSocket_of_mem hc halive hmem)
      rw [hhandler] at hsome
      cases hsome
  | some handler =>
      rw [hhandler] at hmap
      obtain ⟨callback, rest, hlist, hcall, hrest⟩ := List.map_eq_cons_iff.mp hmap
      rw [List.map_eq_nil_iff.mp hrest] at hlist
      have hsame : callback.connection = connection :=
        connection_of_mem_callbacksIn (by rw [hlist]; exact List.mem_singleton_self _)
      rw [hlist]
      simp only [Reactor.replay, chatroomHandler, hcall, hsame]
      exact OrderedSet.notMem_erase _ _

theorem Peopled.stepConnection {event : Seasocks.Event} (h₀ : Peopled h)
    (hinv : Invariant worlds (chatroomHandler username) .empty h) (hevent : isOwn event = true ∨ event = .destroy)
    (hstep : Hub.stepConnection worlds (chatroomHandler username) connection event h = .ok h') :
    Peopled h' := by
  obtain ⟨c, c', hc, hcontinues, huses⟩ := stepConnection_cases hstep
  obtain ⟨hstate, -, -, hothers⟩ := uses_used huses
  have hbound : connection < h.connections.length := (List.getElem?_eq_some_iff.mp hc).1
  intro member hmember
  rw [hstate] at hmember
  have hlive : ∃ c₁, (h.connections.set connection c')[member]? = some c₁ ∧ c₁.alive = true := by
    by_cases hsame : connection = member
    · subst hsame
      refine ⟨c', List.getElem?_set_self hbound, ?_⟩
      rcases hevent with hevent | rfl
      · rw [hcontinues.alive hevent]
        rcases hcontinues.alive_or_same with halive | rfl
        · exact halive
        · have hnothing : callbacksIn connection c'.calls (c'.calls.drop c'.calls.length) = [] := by
            rw [List.drop_length]
            rfl
          rw [hnothing] at hmember
          obtain ⟨c₁, hc₁, halive⟩ := h₀ connection hmember
          rw [hc] at hc₁
          injection hc₁ with hc₁
          exact hc₁ ▸ halive
      · exact absurd hmember (not_mem_of_destroy hinv hc hcontinues)
    · rcases Peopled.joined (fun callback => connection_of_mem_callbacksIn) hmember with hold | hnew
      · obtain ⟨c₁, hc₁, halive⟩ := h₀ member hold
        exact ⟨c₁, (List.getElem?_set_ne hsame).trans hc₁, halive⟩
      · exact absurd hnew.symm hsame
  obtain ⟨c₁, hc₁, halive⟩ := hlive
  obtain ⟨c₂, hc₂, hused⟩ := hothers member c₁ hc₁
  exact ⟨c₂, hc₂, hused.alive.trans halive⟩

theorem Peopled.step {event : Event} (h₀ : Peopled h) (hinv : Invariant worlds (chatroomHandler username) .empty h)
    (hstep : Hub.step worlds (chatroomHandler username) event h = .ok h') : Peopled h' := by
  cases event with
  | accept =>
      injection hstep with hstep
      subst hstep
      intro member hmember
      obtain ⟨c, hc, halive⟩ := h₀ member hmember
      refine ⟨c, ?_, halive⟩
      rw [List.getElem?_append_left (List.getElem?_eq_some_iff.mp hc).1]
      exact hc
  | readable connection result => exact h₀.stepConnection hinv (Or.inl rfl) hstep
  | writable connection => exact h₀.stepConnection hinv (Or.inl rfl) hstep
  | writer connection call => exact h₀.stepConnection hinv (Or.inl rfl) hstep
  | destroy connection => exact h₀.stepConnection hinv (Or.inr rfl) hstep

theorem Peopled.run {events : List Event} (h₀ : Peopled h) (hinv : Invariant worlds (chatroomHandler username) .empty h)
    (hrun : Hub.run worlds (chatroomHandler username) events h = .ok h') : Peopled h' := by
  induction events generalizing h with
  | nil =>
      injection hrun with hrun
      exact hrun ▸ h₀
  | cons event events ih =>
      obtain ⟨h₁, hstep, hrest⟩ := ok_of_bind_eq_ok hrun
      exact ih (h₀.step hinv hstep) (hinv.step hstep) hrest

/-- A WebSocket is in the chatroom as long as its connection is alive. -/
theorem Invariant.mem_of_isWebSocket (hinv : Invariant worlds (chatroomHandler username) .empty h)
    (hc : h.connections[connection]? = some c) (halive : c.alive = true) (hsocket : IsWebSocket c) :
    connection ∈ h.state := by
  obtain ⟨handler, data, -, hcallbacks, -⟩ := ((hinv.regular connection c hc).connected halive).after hsocket
  have hmap := map_call_callbacksIn connection [] c.calls
  rw [hcallbacks, ← hinv.own connection c hc] at hmap
  obtain ⟨joined, rest, hlist, hcall, -⟩ := List.map_eq_cons_iff.mp hmap
  have hmem : joined ∈ h.history.filter fun callback => callback.connection = connection := by
    rw [hlist]
    exact List.mem_cons_self
  obtain ⟨hhistory, hsame⟩ := List.mem_filter.mp hmem
  rw [decide_eq_true_eq] at hsame
  obtain ⟨earlier, later, hsplit⟩ := List.append_of_mem hhistory
  have hdata := (hinv.data hc halive hsocket hsplit hsame hcall).2
  rw [hinv.state, hsplit, Reactor.replay_append, chatroomHandler_eq]
  dsimp only
  rw [Reactor.replay]
  refine Reactor.mem_replay_room ?_ (stays_of_data hdata)
  simp only [Reactor.room, chatPart, hcall, hsame]
  exact OrderedSet.mem_insert_self _ _

/-- The chatroom holds a pointer to every WebSocket whose connection is alive and to nothing else, so that
whatever it does in a callback of one connection, no other connection makes the program fail. -/
theorem chatroom_pointers {events : List Event}
    (hrun : Hub.run worlds (chatroomHandler username) events (start .empty) = .ok h) :
    (∀ connection, connection ∈ h.state ↔
      ∃ c, h.connections[connection]? = some c ∧ c.alive = true ∧ IsWebSocket c) ∧
    ∀ (connection : Nat) (event : Seasocks.Event) (f : Fault),
      Hub.stepConnection worlds (chatroomHandler username) connection event h = .error f →
      h.connections[connection]? = none ∨ ∃ c c', h.connections[connection]? = some c ∧
        (Connection.step ((worlds connection).serving (chatroomHandler username) h.state connection c.calls)
          event).run c = .error (.fault f) c' := by
  have hinv := invariant_start.run hrun
  have hpeopled : Peopled h :=
    Peopled.run (fun member hmember => absurd hmember (OrderedSet.notMem_empty _)) invariant_start hrun
  refine ⟨fun connection => ⟨fun hmem => ?_, ?_⟩, fun connection event f hfault => ?_⟩
  · obtain ⟨c, hc, halive⟩ := hpeopled connection hmem
    exact ⟨c, hc, halive, hinv.isWebSocket_of_mem hc halive hmem⟩
  · rintro ⟨c, hc, halive, hsocket⟩
    exact hinv.mem_of_isWebSocket hc halive hsocket
  · rw [Hub.stepConnection] at hfault
    cases hc : h.connections[connection]? with
    | none => exact Or.inl rfl
    | some c =>
        rw [hc] at hfault
        dsimp only at hfault
        refine Or.inr ⟨c, ?_⟩
        -- The uses behind the event meet pointers of the chatroom only.
        have hok : ∀ c' : Connection, ∃ h', uses worlds
            (Reactor.mailExcept connection ((chatroomHandler username).replay
              (callbacksIn connection c.calls (c'.calls.drop c.calls.length)) h.state).2)
            { connections := h.connections.set connection c'
              state := ((chatroomHandler username).replay
                (callbacksIn connection c.calls (c'.calls.drop c.calls.length)) h.state).1
              history := h.history ++ callbacksIn connection c.calls (c'.calls.drop c.calls.length) } =
            .ok h' := by
          intro c'
          refine uses_ok fun entry hentry => ?_
          rw [Reactor.mailExcept, List.mem_filter, decide_eq_true_eq] at hentry
          obtain ⟨hsent, hne⟩ := hentry
          rw [chatroomHandler_eq] at hsent
          rcases Reactor.mem_of_mem_sent_room hsent with hold | ⟨callback, hcallback, announcement, hjoin⟩
          · obtain ⟨c₁, hc₁, halive⟩ := hpeopled entry.1 hold
            exact ⟨c₁, (List.getElem?_set_ne hne.symm).trans hc₁, halive⟩
          · have hsame := (connection_of_join hjoin).1
            rw [connection_of_mem_callbacksIn hcallback] at hsame
            exact absurd hsame.symm hne
        cases hrun' : (Connection.step ((worlds connection).serving (chatroomHandler username) h.state
            connection c.calls) event).run c with
        | ok result c' =>
            rw [hrun'] at hfault
            obtain ⟨h', hh'⟩ := hok c'
            dsimp only at hfault
            rw [hh'] at hfault
            cases hfault
        | error e c' =>
            rw [hrun'] at hfault
            cases e with
            | fault f' =>
                injection hfault with hf
                exact ⟨c', rfl, by rw [hf]⟩
            | exception e =>
                obtain ⟨h', hh'⟩ := hok c'
                dsimp only at hfault
                rw [hh'] at hfault
                cases hfault

def names (callback : Callback) : Bytes :=
  if callback.connection = 0 then ascii "ann" else ascii "bob"

/-- Two clients of the chatroom, of which one speaks and the other leaves. -/
def chatroomEvents : List Event :=
  [.accept, .accept, .readable 0 (.data chatRequest), .readable 1 (.data chatRequest),
    .readable 0 (.data greetingFrame), .destroy 1]

theorem chatroom_pointers_two :
    ∃ h, Hub.run (fun _ => World.chat) (chatroomHandler names) chatroomEvents (start .empty) = .ok h ∧
      0 ∈ h.state ∧ 1 ∉ h.state := by
  have hcheck : (do
      let h ← Hub.run (fun _ => World.chat) (chatroomHandler names) chatroomEvents (start .empty)
      return isOpen 0 h && h.connections[1]?.all fun c : Connection => !c.alive) = .ok true := by decide +kernel
  obtain ⟨h, hrun, hcheck⟩ := ok_of_bind_eq_ok hcheck
  injection hcheck with hcheck
  rw [Bool.and_eq_true] at hcheck
  obtain ⟨c, hc, halive, hstate, -⟩ := exists_of_isOpen hcheck.1
  have hmembers := (chatroom_pointers hrun).1
  refine ⟨h, hrun, (hmembers 0).mpr ⟨c, hc, halive, Or.inr hstate⟩, fun hmem => ?_⟩
  obtain ⟨c', hc', halive', -⟩ := (hmembers 1).mp hmem
  rw [hc'] at hcheck
  simp [halive'] at hcheck

/-- Every client of the chatroom is sent the announcements since it has joined, its own joining the first,
and the answers to its pings: a beginning of them, and all of them as long as it is open, each once, and in
the order that holds for all clients. -/
theorem chatroom_announces {events : List Event}
    (hrun : Hub.run worlds (chatroomHandler username) events (start .empty) = .ok h)
    (hc : h.connections[connection]? = some c) (halive : c.alive = true)
    (hstate : c.state = .handlingHybiWebSocket) (hplain : c.perMessageDeflate = false) :
    ∃ (earlier later : List Callback) (joined : Callback) (handler : HandlerId) (base : Output)
      (before calls : List Entry) (messages : List HybiPacketDecoder.Message),
      h.history = earlier ++ joined :: later ∧
      joined = ⟨connection, before ++ [⟨.onConnect handler, base⟩]⟩ ∧
      (∀ callback ∈ earlier, callback.connection ≠ connection) ∧
      (∀ callback ∈ later, callback.connection = connection →
        ∃ call, callback.call = some call ∧ IsData handler call) ∧
      c.calls = before ++ ⟨.onConnect handler, base⟩ :: calls ∧
      Output.Begins (wire messages) base c.out ∧ pongs messages = pings calls ∧
      speech messages <+: announcements username (joined :: later) ∧
      (c.closing = false → speech messages = announcements username (joined :: later) ∧
        Output.emitted c.out = Output.emitted base ++ wire messages) := by
  have hinv := invariant_start.run hrun
  obtain ⟨earlier, later, c₀, handler, calls, messages, hhistory, hnoError, -, htalk⟩ :=
    hinv.attends connection c hc halive hstate hplain
  have hcall : Callback.call ⟨connection, c₀.calls ++ [⟨.onConnect handler, c₀.out⟩]⟩ =
      some (.onConnect handler) := by
    rw [Callback.call, List.getLast?_concat]
    rfl
  obtain ⟨hearlier, hlater⟩ := hinv.data hc halive (Or.inr hstate) hhistory rfl hcall
  have hjoin : chatPart username ⟨connection, c₀.calls ++ [⟨.onConnect handler, c₀.out⟩]⟩ = .join connection
      (.sendText (username ⟨connection, c₀.calls ++ [⟨.onConnect handler, c₀.out⟩]⟩ ++ ascii " has joined")) := by
    rw [chatPart, hcall]
  have hpings : pings (⟨.onConnect handler, c₀.out⟩ :: calls) = pings calls := rfl
  rw [chatroomHandler_eq, Reactor.mailFor_replay_join hjoin (stays_of_data hlater)] at htalk
  refine ⟨earlier, later, _, handler, c₀.out, c₀.calls, calls, messages, hhistory, rfl, hearlier, hlater,
    htalk.calls_eq, htalk.begun, htalk.answers.trans hpings, htalk.prefix_spoken,
    fun hopen => ⟨htalk.whole hopen, ?_⟩⟩
  exact emitted_of_open htalk hnoError (hinv.regular connection c hc).unfailed hopen

theorem chatroom_announces_two :
    ∃ h c base before calls messages earlier later handler,
      Hub.run (fun _ => World.chat) (chatroomHandler names) chatroomEvents (start .empty) = .ok h ∧
      h.connections[0]? = some c ∧ c.calls = before ++ ⟨.onConnect handler, base⟩ :: calls ∧
      Output.emitted c.out = Output.emitted base ++ wire messages ∧
      h.history = earlier ++ ⟨0, before ++ [⟨.onConnect handler, base⟩]⟩ :: later ∧
      speech messages = announcements names (⟨0, before ++ [⟨.onConnect handler, base⟩]⟩ :: later) := by
  have hcheck : (do
      let h ← Hub.run (fun _ => World.chat) (chatroomHandler names) chatroomEvents (start .empty)
      return isOpen 0 h) = .ok true := by decide +kernel
  obtain ⟨h, hrun, hcheck⟩ := ok_of_bind_eq_ok hcheck
  injection hcheck with hcheck
  obtain ⟨c, hc, halive, hstate, hplain, hopen⟩ := exists_of_isOpen hcheck
  obtain ⟨earlier, later, joined, handler, base, before, calls, messages, hhistory, rfl, -, -, hcalls, -, -, -,
    hwhole⟩ := chatroom_announces hrun hc halive hstate hplain
  obtain ⟨hspeech, hemitted⟩ := hwhole hopen
  exact ⟨h, c, base, before, calls, messages, earlier, later, handler, hrun, hc, hcalls, hemitted, hhistory,
    hspeech⟩

end Hub

end Chatroom

/-! ### The echo -/

/-- What the echo sends back. -/
def echo : Call → List WsCall
  | .onText _ data => [.sendText (cString data)]
  | .onBinary _ data => [.sendBinary data]
  | _ => []

theorem echoHandler_react (callback : Callback) :
    echoHandler.react callback () =
      ((), (callback.call.toList.flatMap echo).map fun use => (callback.connection, use)) := by
  rw [echoHandler]
  dsimp only
  rcases callback.call with _ | call
  · rfl
  · cases call <;> rfl

theorem mailFor_map (connection other : Nat) (uses : List WsCall) :
    Reactor.mailFor connection (uses.map fun use => (other, use)) = if other = connection then uses else [] := by
  rw [Reactor.mailFor, List.filterMap_map]
  split_ifs with hsame
  · have hall : ((fun entry : Nat × WsCall => if entry.1 = connection then some entry.2 else none) ∘
        fun use => (other, use)) = some := by
      funext use
      exact if_pos hsame
    rw [hall, List.filterMap_some]
  · exact List.filterMap_eq_nil_iff.mpr fun use _ => if_neg hsame

/-- The echo sends a connection what comes of its own callbacks. -/
theorem mailFor_replay_echo (history : List Callback) :
    Reactor.mailFor connection (echoHandler.replay history ()).2 =
      ((history.filter fun callback => callback.connection = connection).filterMap Callback.call).flatMap
        echo := by
  induction history with
  | nil => rfl
  | cons callback history ih =>
      rw [Reactor.replay, echoHandler_react]
      dsimp only
      rw [Reactor.mailFor_append, mailFor_map, ih]
      by_cases hsame : callback.connection = connection
      · rw [if_pos hsame, List.filter_cons_of_pos (by simpa using hsame), List.filterMap_cons]
        cases callback.call with
        | none => rfl
        | some call =>
            dsimp only
            rw [List.flatMap_cons, Option.toList_some, List.flatMap_singleton]
      · rw [if_neg hsame, List.filter_cons_of_neg (by simpa using hsame)]
        rfl

theorem cString_cString (s : Bytes) : cString (cString s) = cString s := by
  refine cString_of_not_mem fun hzero => ?_
  have hnonzero := List.mem_takeWhile_imp hzero
  simp at hnonzero

/-- Texts end at a NUL byte. -/
def clip (message : HybiPacketDecoder.Message) : HybiPacketDecoder.Message :=
  if message.opcode = .text then ⟨.text, cString message.payload⟩ else message

theorem spoken_echo (calls : List Entry) :
    spoken ((callbacks calls).flatMap echo) = (heard calls).map clip := by
  induction calls with
  | nil => rfl
  | cons entry calls ih =>
      have hcons : entry :: calls = [entry] ++ calls := rfl
      rw [hcons, callbacks_append, List.flatMap_append, spoken_append, ih, heard_append, List.map_append]
      congr 1
      obtain ⟨call, out⟩ := entry
      cases call with
      | onText handler data =>
          have hcallbacks : callbacks [⟨.onText handler data, out⟩] = [.onText handler data] := rfl
          simp [hcallbacks, echo, spoken, message, cString_cString, heard, Call.passed, clip]
      | _ => rfl

theorem clip_dueFor (messageState : MessageState) (payload : Bytes) :
    (dueFor messageState payload).map clip = dueFor messageState payload := by
  cases messageState with
  | textMessage => simp [dueFor, clip, cString_cString]
  | _ => rfl

/-- The handler is told the texts as they are cut. -/
theorem clip_sentIn (calls : List Entry) : (sentIn calls).map clip = sentIn calls := by
  have hentry : ∀ entry : Entry, (sentOf entry).map clip = sentOf entry := by
    rintro ⟨call, out⟩
    cases call with
    | frame frame =>
        rw [sentOf]
        dsimp only
        rw [frameData]
        cases scan frame with
        | frame f size =>
            dsimp only
            split_ifs
            · rfl
            · exact clip_dueFor _ _
        | incomplete | invalid => rfl
    | _ => rfl
  induction calls with
  | nil => rfl
  | cons entry calls ih =>
      rw [sentIn, List.flatMap_cons, List.map_append, hentry]
      exact congrArg _ ih

/-- Each client of the echo hears of itself only: after a read, everything it has sent since the handshake is
taken but for an incomplete frame, and what it has been sent is its own messages, in their order, and the
answers to its pings. -/
theorem Hub.echo_returns {events : List Hub.Event} {received : Piece} {h h' : Hub Unit}
    (hrun : Hub.run worlds echoHandler events (Hub.start ()) = .ok h)
    (hc : h.connections[connection]? = some c) (hstate : c.state = .handlingHybiWebSocket)
    (hplain : c.perMessageDeflate = false)
    (hread : Hub.step worlds echoHandler (.readable connection (.data received)) h = .ok h')
    (hc' : h'.connections[connection]? = some c') (hopen : c'.closing = false) :
    ∃ (handler : HandlerId) (base : Output) (before calls : List Entry) (messages : List HybiPacketDecoder.Message),
      c'.calls = before ++ ⟨.onConnect handler, base⟩ :: calls ∧
      takenBytes c'.calls ++ c'.inBuf = stream c ++ received.val ∧ scan c'.inBuf = .incomplete ∧
      Output.emitted c'.out = Output.emitted base ++ wire messages ∧
      speech messages = sentIn calls ∧ pongs messages = pings calls := by
  have hinv := Hub.invariant_start.run hrun
  have hinv' := hinv.step hread
  obtain ⟨halive, hstate', hplain', hincomplete, hstream⟩ := hinv.read_left hread hc hstate hplain hc' hopen
  obtain ⟨earlier, later, c₀, handler, calls, messages, hhistory, hnoError, -, htalk⟩ :=
    hinv'.attends connection c' hc' halive hstate' hplain'
  have hcall : Callback.call ⟨connection, c₀.calls ++ [⟨.onConnect handler, c₀.out⟩]⟩ =
      some (.onConnect handler) := by
    rw [Callback.call, List.getLast?_concat]
    rfl
  have hearlier := (hinv'.data hc' halive (Or.inr hstate') hhistory rfl hcall).1
  have hown := hinv'.callbacks_eq hc' halive hhistory hearlier htalk.calls_eq
  have hmail : Reactor.mailFor connection (echoHandler.replay
      (⟨connection, c₀.calls ++ [⟨.onConnect handler, c₀.out⟩]⟩ :: later) ()).2 =
        (callbacks (⟨.onConnect handler, c₀.out⟩ :: calls)).flatMap echo := by
    rw [mailFor_replay_echo, hown]
  have hsent : spoken (Reactor.mailFor connection (echoHandler.replay
      (⟨connection, c₀.calls ++ [⟨.onConnect handler, c₀.out⟩]⟩ :: later) ()).2) = sentIn calls := by
    have hheard : heard (⟨.onConnect handler, c₀.out⟩ :: calls) = sentIn calls := htalk.delivered
    rw [hmail, spoken_echo, hheard, clip_sentIn]
  refine ⟨handler, c₀.out, c₀.calls, calls, messages, htalk.calls_eq, hstream, hincomplete, ?_, ?_, htalk.answers⟩
  · exact Hub.emitted_of_open htalk hnoError (hinv'.regular connection c' hc').unfailed hopen
  · exact (htalk.whole hopen).trans hsent

theorem Hub.echo_returns_greeting :
    ∃ h h' c c' base messages calls, Hub.run (fun _ => World.chat) echoHandler
        [.accept, .readable 0 (.data chatRequest)] (Hub.start ()) = .ok h ∧
      Hub.step (fun _ => World.chat) echoHandler (.readable 0 (.data greetingFrame)) h = .ok h' ∧
      h.connections[0]? = some c ∧ h'.connections[0]? = some c' ∧
      Output.emitted c'.out = Output.emitted base ++ wire messages ∧ speech messages = sentIn calls := by
  have hcheck : (do
      let h ← Hub.run (fun _ => World.chat) echoHandler [.accept, .readable 0 (.data chatRequest)] (Hub.start ())
      let h' ← Hub.step (fun _ => World.chat) echoHandler (.readable 0 (.data greetingFrame)) h
      return Hub.isOpen 0 h && Hub.isOpen 0 h') = .ok true := by decide +kernel
  obtain ⟨h, hrun, hcheck⟩ := ok_of_bind_eq_ok hcheck
  obtain ⟨h', hread, hcheck⟩ := ok_of_bind_eq_ok hcheck
  injection hcheck with hcheck
  rw [Bool.and_eq_true] at hcheck
  obtain ⟨c, hc, -, hstate, hplain, -⟩ := Hub.exists_of_isOpen hcheck.1
  obtain ⟨c', hc', -, -, -, hopen⟩ := Hub.exists_of_isOpen hcheck.2
  obtain ⟨handler, base, before, calls, messages, -, -, -, hemitted, hspeech, -⟩ :=
    Hub.echo_returns hrun hc hstate hplain hread hc' hopen
  exact ⟨h, h', c, c', base, messages, calls, hrun, hread, hc, hc', hemitted, hspeech⟩

end Seasocks
