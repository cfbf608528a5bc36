import Seasocks.Hub
import Seasocks.Proof.Callbacks
import Seasocks.Proof.Conversations
import Seasocks.Proof.Failures
import Seasocks.Proof.Leftovers
import Seasocks.Proof.ParsedRequests

/-!
# What the clients of a shared handler hear

Callbacks are made one after the other, whatever the connections do in between, and the handlers see nothing
else. So every connection is sent what the handlers make of the history of callbacks, in its order, nothing
of it twice and nothing left out.
-/

namespace Seasocks

open Program Relation WebSocketFrame HybiPacketDecoder

variable {σ : Type}

/-! ### Callbacks in a log -/

theorem callbacksIn_append (connection : Nat) (before calls calls' : List Entry) :
    callbacksIn connection before (calls ++ calls') =
      callbacksIn connection before calls ++ callbacksIn connection (before ++ calls) calls' := by
  induction calls generalizing before with
  | nil =>
      rw [List.append_nil]
      rfl
  | cons entry calls ih =>
      have happend : before ++ [entry] ++ calls = before ++ entry :: calls := by
        rw [List.append_assoc]
        rfl
      simp only [List.cons_append, callbacksIn, ih, happend]
      split_ifs <;> rfl

theorem callbacksIn_eq_nil (connection : Nat) (before : List Entry) {calls : List Entry}
    (h : ∀ entry ∈ calls, entry.call.callee = none) : callbacksIn connection before calls = [] := by
  induction calls generalizing before with
  | nil => rfl
  | cons entry calls ih =>
      have hnone := h entry List.mem_cons_self
      rw [callbacksIn, hnone]
      exact ih _ fun entry' hmem => h entry' (List.mem_cons_of_mem _ hmem)

theorem connection_of_mem_callbacksIn {connection : Nat} {before calls : List Entry} {callback : Callback}
    (h : callback ∈ callbacksIn connection before calls) : callback.connection = connection := by
  induction calls generalizing before with
  | nil => cases h
  | cons entry calls ih =>
      rw [callbacksIn] at h
      split_ifs at h with hcallee
      · rcases List.mem_cons.mp h with rfl | hmem
        · rfl
        · exact ih hmem
      · exact ih h

/-- The calls of the callbacks are the callbacks of the log. -/
theorem map_call_callbacksIn (connection : Nat) (before calls : List Entry) :
    (callbacksIn connection before calls).map Callback.call = (Connection.callbacks calls).map some := by
  induction calls generalizing before with
  | nil => rfl
  | cons entry calls ih =>
      have hcons : Connection.callbacks (entry :: calls) =
          if entry.call.callee.isSome then entry.call :: Connection.callbacks calls
          else Connection.callbacks calls := by
        rw [Connection.callbacks, List.map_cons, List.filter_cons]
        rfl
      have hcall : Callback.call ⟨connection, before ++ [entry]⟩ = some entry.call := by
        rw [Callback.call, List.getLast?_concat]
        rfl
      rw [hcons, callbacksIn]
      split_ifs
      · rw [List.map_cons, List.map_cons, hcall, ih]
      · exact ih _

theorem call_callbacksIn (connection : Nat) (before calls : List Entry) :
    (callbacksIn connection before calls).filterMap Callback.call = Connection.callbacks calls := by
  have hmap := congrArg (List.filterMap id) (map_call_callbacksIn connection before calls)
  rw [List.filterMap_map, List.filterMap_map] at hmap
  exact hmap.trans List.filterMap_some

theorem call_of_mem_callbacksIn {connection : Nat} {before calls : List Entry} {callback : Callback}
    (h : callback ∈ callbacksIn connection before calls) :
    ∃ call ∈ Connection.callbacks calls, callback.call = some call := by
  have hmem : callback.call ∈ (callbacksIn connection before calls).map Callback.call :=
    List.mem_map_of_mem h
  rw [map_call_callbacksIn, List.mem_map] at hmem
  obtain ⟨call, hcall, hsome⟩ := hmem
  exact ⟨call, hcall, hsome.symm⟩

namespace Connection

variable {w : World} {handlers : Handlers σ} {s : σ} {connection : Nat} {before : List Entry}

/-- What a connection is told in its own callbacks is its part of the reaction to them. -/
theorem said_serving (calls : List Entry) :
    said (w.serving handlers s connection before) before calls =
      Reactor.mailFor connection (handlers.replay (callbacksIn connection before calls) s).2 := by
  induction calls using List.reverseRecOn with
  | nil => rfl
  | append_singleton calls entry ih =>
      rw [said_append, ih, callbacksIn_append, said, said, List.append_nil]
      have hreply : reply (w.serving handlers s connection before) (before ++ calls ++ [entry]) entry.call =
          if entry.call.callee.isSome then
            handlers.answer s connection before (before ++ calls ++ [entry])
          else [] := by
        cases entry.call <;> rfl
      rw [hreply, callbacksIn, callbacksIn]
      split_ifs with hcallee
      · have hlast : callbacksIn connection before (calls ++ [entry]) =
            callbacksIn connection before calls ++ [⟨connection, before ++ calls ++ [entry]⟩] := by
          rw [callbacksIn_append, callbacksIn, callbacksIn]
          rw [if_pos hcallee]
        rw [Reactor.replay_concat, Reactor.mailFor_append, Handlers.answer]
        rw [List.append_assoc before, List.drop_left, hlast, List.getLast?_concat, List.dropLast_concat,
          List.append_assoc]
      · rw [List.append_nil, List.append_nil]

/-! ### One connection among many -/

variable {c c' c'' : Connection}

/-- What is known of a connection whatever has happened to it. -/
structure Regular (c : Connection) : Prop where
  tracked : Tracked c
  unfailed : Output.Unfailed c.out
  connected : c.alive = true → Connected c
  parsed : Parsed c

theorem regular_fresh : Regular fresh where
  tracked := by
    have hunframed : Unframed fresh := ⟨by decide, rfl, fun entry hentry => by cases hentry⟩
    exact hunframed.tracked
  unfailed := fun _ event hevent => by cases hevent
  connected := fun _ => connected_fresh
  parsed := parsed_fresh

/-- Another connection's callback has used this one. -/
structure Used (uses : List WsCall) (c c' : Connection) : Prop where
  state : c'.state = c.state
  alive : c'.alive = c.alive
  plain : c'.perMessageDeflate = c.perMessageDeflate
  input : SameInput c c'
  closing : c.closing = true → c'.closing = true
  calls : ∃ calls, c'.calls = c.calls ++ calls ∧ ∀ entry ∈ calls, entry.call.callee = none
  regular : Regular c → Regular c'
  told : c.state = .handlingHybiWebSocket → c.perMessageDeflate = false →
    ∃ messages, Talks [] uses messages c c'

theorem Used.refl (c : Connection) : Used [] c c where
  state := rfl
  alive := rfl
  plain := rfl
  input := ⟨rfl, rfl⟩
  closing := id
  calls := ⟨[], (List.append_nil _).symm, by simp⟩
  regular := id
  told := fun _ _ => ⟨[], Talks.refl c⟩

theorem Used.trans {uses uses' : List WsCall} (h : Used uses c c') (h' : Used uses' c' c'') :
    Used (uses ++ uses') c c'' where
  state := h'.state.trans h.state
  alive := h'.alive.trans h.alive
  plain := h'.plain.trans h.plain
  input := h.input.trans h'.input
  closing := fun hclosing => h'.closing (h.closing hclosing)
  calls := by
    obtain ⟨calls, hcalls, hnone⟩ := h.calls
    obtain ⟨calls', hcalls', hnone'⟩ := h'.calls
    refine ⟨calls ++ calls', by rw [hcalls', hcalls, List.append_assoc], ?_⟩
    exact List.forall_mem_append.mpr ⟨hnone, hnone'⟩
  regular := fun hc => h'.regular (h.regular hc)
  told := fun hstate hplain => by
    obtain ⟨messages, htold⟩ := h.told hstate hplain
    obtain ⟨messages', htold'⟩ := h'.told (h.state.trans hstate) (h.plain.trans hplain)
    exact ⟨messages ++ messages', htold.trans htold'⟩

theorem Used.callbacksIn_eq {uses : List WsCall} (h : Used uses c c') (connection : Nat) :
    callbacksIn connection [] c'.calls = callbacksIn connection [] c.calls := by
  obtain ⟨calls, hcalls, hnone⟩ := h.calls
  rw [hcalls, callbacksIn_append, callbacksIn_eq_nil connection _ hnone, List.append_nil]

theorem Sends.unfailed (h : Sends w c c') (hc : Output.Unfailed c.out) : Output.Unfailed c'.out :=
  invariant_of_steps Output.Unfailed (fun _ _ hunfailed hstep => Output.OpStep.unfailed hstep hunfailed)
    h.out_steps hc

theorem wsCall_used (call : WsCall) (c : Connection) :
    Ends (wsCall w call) c (fun _ c' => Used [call] c c') fun _ _ => False := by
  have htracked : Ends (wsCall w call) c (fun _ c' => Tracked c → Tracked c') fun _ _ => True := by
    by_cases hc : Tracked c
    · exact Ends.mono (wsCall_tracked call hc) (fun _ _ h _ => h) fun _ _ _ => trivial
    · exact Ends.mono (wsCall_sends call c) (fun _ _ _ h => absurd h hc) fun _ _ => False.elim
  have htold : Ends (wsCall w call) c (fun _ c' => c.state = .handlingHybiWebSocket →
      c.perMessageDeflate = false → ∃ messages, Talks [] [call] messages c c') fun _ _ => True := by
    by_cases hc : c.state = .handlingHybiWebSocket ∧ c.perMessageDeflate = false
    · exact (wsCall_talks call (by simp [hc.1]) hc.2).mono (fun _ _ h _ _ => h.2) fun _ _ _ => trivial
    · refine Ends.mono (wsCall_sends call c) (fun _ _ _ hstate hplain => ?_) fun _ _ => False.elim
      exact absurd ⟨hstate, hplain⟩ hc
  refine (((wsCall_sends call c).and htracked).and htold).mono (fun _ c' h => ?_) fun _ _ h => h.1.1
  obtain ⟨⟨hsends, htracked'⟩, htold'⟩ := h
  obtain ⟨out, calls, hframe, -, hcalls⟩ := Sends.frame hsends
  have hnone : ∀ entry ∈ calls, entry.call.callee = none := fun entry hentry => by
    obtain ⟨input, hinput⟩ := hcalls entry hentry
    rw [hinput]
    rfl
  refine ⟨?_, ?_, ?_, Sends.sameInput hsends, Sends.closing hsends, ⟨calls, ?_, hnone⟩,
    fun hc => ⟨htracked' hc.tracked, Sends.unfailed hsends hc.unfailed, ?_, hc.parsed.sends hsends⟩, htold'⟩
  · rw [hframe]
  · rw [hframe]
  · rw [hframe]
  · rw [hframe]
  · intro halive
    have hconnected : Connected c := hc.connected (by rw [hframe] at halive; exact halive)
    refine hconnected.frame ?_ ?_ (Sends.callbacks_eq hsends)
    · rw [hframe]
    · rw [hframe]

/-! ### The events of one connection -/

theorem Move.unfailed (h : Move w c c') (hc : Output.Unfailed c.out) : Output.Unfailed c'.out := by
  rcases h.out_steps with hsteps | ⟨-, hfd⟩
  · exact invariant_of_steps Output.Unfailed (fun _ _ hunfailed hstep => Output.OpStep.unfailed hstep hunfailed)
      hsteps hc
  · refine Output.unfailed_of_closed ?_
    rw [Output.closed, hfd]
    rfl

/-- Whether it returns or throws an exception. -/
def Continues (m : ConnM Unit) (c c' : Connection) : Prop :=
  m.run c = .ok () c' ∨ ∃ e, m.run c = .error (.exception e) c'

theorem Continues.of_ends {m : ConnM Unit} (post : Connection → Prop) (h : Continues m c c')
    (hends : Ends m c (fun _ c' => post c') fun e c' => post c' ∨ Faulted e c') : post c' := by
  rcases h with hrun | ⟨e, hrun⟩
  · rw [ends_of_run_ok hrun] at hends
    exact hends
  · rw [ends_of_run_error hrun] at hends
    rcases hends with hpost | ⟨f, hf⟩
    · exact hpost
    · cases hf

/-- What an event preserves that every move preserves. -/
theorem Continues.invariant {event : Event} (inv : Connection → Prop) (h : Continues (step w event) c c')
    (hmove : ∀ c c', inv c → Move w c c' → inv c') (hthrown : ∀ e c c', inv c → Thrown e c c' → inv c')
    (hc : inv c) : inv c' := by
  refine h.of_ends inv (Ends.mono (step_moves event c) (fun _ _ hsteps => ?_) ?_)
  · exact invariant_of_steps inv hmove hsteps hc
  · rintro e c' ⟨c₁, hsteps, hlast⟩
    exact Or.inl (hthrown e c₁ c' (invariant_of_steps inv hmove hsteps hc) hlast)

theorem Continues.calls_grow {event : Event} (h : Continues (step w event) c c') :
    c.calls <+: c'.calls :=
  h.invariant (fun c' => c.calls <+: c'.calls) (fun _ _ hgrows hstep => hgrows.trans hstep.calls_grow)
    (fun _ _ _ hgrows hlast => hgrows.trans hlast.calls_grow) List.prefix_rfl

theorem Continues.regular {event : Event} (h : Continues (step w event) c c') (hc : Regular c) :
    Regular c' where
  tracked := h.of_ends Tracked (step_tracked event hc.tracked)
  unfailed := h.invariant (fun c => Output.Unfailed c.out) (fun _ _ hunfailed hstep => hstep.unfailed hunfailed)
    (fun e c₁ c₂ hunfailed hlast => by cases hlast <;> exact hunfailed) hc.unfailed
  connected := h.invariant (fun c => c.alive = true → Connected c) (fun _ _ => Connected.move)
    (fun _ _ _ => Connected.thrown) hc.connected
  parsed := h.of_ends Parsed (step_parsed event hc.parsed)

theorem Continues.alive {event : Event} (h : Continues (step w event) c c') (hevent : isOwn event = true) :
    c'.alive = c.alive := by
  have hnot : event ≠ .destroy := by
    rintro rfl
    cases hevent
  refine h.of_ends (fun c' => c'.alive = c.alive) (Ends.mono (step_takes hnot c) (fun _ c₁ hsteps => ?_) ?_)
  · exact invariant_of_steps (fun c₁ => c₁.alive = c.alive) (fun _ _ halive hstep => hstep.2.1.trans halive)
      hsteps rfl
  · rintro e c₁ ⟨c₂, hsteps, hlast⟩
    refine Or.inl ?_
    have halive : c₂.alive = c.alive := invariant_of_steps (fun c₁ => c₁.alive = c.alive)
      (fun _ _ halive hstep => hstep.2.1.trans halive) hsteps rfl
    cases hlast <;> exact halive

/-- Nothing happens to a connection that is no more. -/
theorem Continues.alive_or_same {event : Event} (h : Continues (step w event) c c') :
    c.alive = true ∨ c' = c := by
  by_cases halive : c.alive = true
  · exact Or.inl halive
  · refine Or.inr (h.of_ends (fun c' => c' = c) ?_)
    rw [step, ends_bind, ends_get]
    cases event with
    | readable result | writable | socket call | destroy =>
        dsimp only
        rw [if_neg halive]
        exact ends_fault.mpr (Or.inr ⟨_, rfl⟩)
    | writer call =>
        dsimp only
        rw [ends_ite]
        refine ⟨fun _ => ?_, fun _ => rfl⟩
        rw [if_neg halive]
        exact ends_fault.mpr (Or.inr ⟨_, rfl⟩)

theorem destroy_dead (c : Connection) :
    Ends (destroy w) c (fun _ c' => c'.alive = false) fun _ _ => False := by
  have vanish : ∀ c₁ : Connection, Ends (do
      liftOut closeFd
      modify fun c => { c with webSocketHandler := none, alive := false } : ConnM Unit) c₁
      (fun _ c' => c'.alive = false) fun _ _ => False := by
    intro c₁
    simp only [ends_bind, ends_liftOut, ends_modify]
    exact After.of_forall fun _ _ => trivial
  have cancel : Ends cancelResponse c (fun _ _ => True) fun _ _ => False := by
    simp only [cancelResponse, record, ends_bind, ends_get, ends_ite, ends_modify, ends_pure]
    exact ⟨fun _ => trivial, fun _ => trivial⟩
  rw [destroy, ends_bind]
  refine cancel.mono (fun _ c₁ _ => ?_) fun _ _ => id
  rw [ends_bind, ends_get]
  cases c₁.webSocketHandler with
  | none => exact vanish c₁
  | some handler =>
      dsimp only
      rw [ends_bind]
      exact (callHandler_ends _ _ _).mono (fun _ c₂ _ => vanish c₂) fun _ _ => id

theorem Continues.destroyed (h : Continues (step w .destroy) c c') : c.alive = true ∧ c'.alive = false := by
  refine h.of_ends (fun c' => c.alive = true ∧ c'.alive = false) ?_
  rw [step, ends_bind, ends_get]
  dsimp only
  rw [ends_ite]
  refine ⟨fun halive => ?_, fun _ => ends_fault.mpr (Or.inr ⟨_, rfl⟩)⟩
  exact (destroy_dead c).mono (fun _ _ hdead => ⟨halive, hdead⟩) fun _ _ => False.elim

theorem Continues.destroy_callbacks (h : Continues (step w .destroy) c c') :
    callbacks c'.calls = callbacks c.calls ++ (c.webSocketHandler.map Call.onDisconnect).toList := by
  refine h.of_ends (fun c' => callbacks c'.calls =
    callbacks c.calls ++ (c.webSocketHandler.map Call.onDisconnect).toList) ?_
  rw [step, ends_bind, ends_get]
  dsimp only
  rw [ends_ite]
  refine ⟨fun _ => ?_, fun _ => ends_fault.mpr (Or.inr ⟨_, rfl⟩)⟩
  exact (Connection.destroy_callbacks c).mono (fun _ _ => id) fun _ _ => False.elim

/-- A step of an upgraded connection. -/
theorem Continues.conversed {event : Event} (h : Continues (step w event) c c') (hevent : isOwn event = true)
    (hstate : c.state = .handlingHybiWebSocket) (hplain : c.perMessageDeflate = false)
    (hhandler : c.webSocketHandler ≠ none) : Conversed w c c' :=
  h.of_ends (Conversed w c) ((step_conversed hevent hstate hplain hhandler).mono (fun _ _ => id) fun _ _ => Or.inr)

/-- A step that upgrades a connection. -/
theorem Continues.joined {event : Event} (h : Continues (step w event) c c') (hevent : isOwn event = true)
    (hc : Regular c) (hstate : c.state ≠ .handlingHybiWebSocket)
    (hstate' : c'.state = .handlingHybiWebSocket) (hplain' : c'.perMessageDeflate = false) : Joined w c' :=
  h.of_ends (Enters w) (step_enters hevent hc.tracked hstate) hstate' hplain'

/-- Only a connection that has had no handshake is upgraded. -/
theorem Continues.fresh {event : Event} (h : Continues (step w event) c c')
    (hstate : c.state ≠ .handlingHybiWebSocket) (hstate' : c'.state = .handlingHybiWebSocket) :
    ¬ IsWebSocket c := by
  rintro (hhixie | hhybi)
  · have hsame : c'.state = .handlingHixieWebSocket :=
      h.invariant (fun c => c.state = .handlingHixieWebSocket)
        (fun _ _ hstate hstep => (hstep.webSocket (Or.inl hstate)).trans hstate)
        (fun e c₁ c₂ hstate hlast => by cases hlast <;> exact hstate) hhixie
    rw [hsame] at hstate'
    cases hstate'
  · exact hstate hhybi

/-- Handlers are connected once, and what is logged before that are no callbacks. -/
theorem Connected.split {before after : List Entry} {handler : HandlerId} {out : Output}
    (h : Connected c) (hcalls : c.calls = before ++ ⟨.onConnect handler, out⟩ :: after) :
    callbacks before = [] := by
  have hsome : callbacks [⟨.onConnect handler, out⟩] = [.onConnect handler] := rfl
  have hsplit : callbacks c.calls = callbacks before ++ .onConnect handler :: callbacks after := by
    have hcons : (⟨.onConnect handler, out⟩ :: after : List Entry) =
        [⟨.onConnect handler, out⟩] ++ after := rfl
    rw [hcalls, callbacks_append, hcons, callbacks_append, hsome]
    rfl
  by_cases hsocket : IsWebSocket c
  · obtain ⟨handler', data, -, hcallbacks, hdata⟩ := h.after hsocket
    cases hbefore : callbacks before with
    | nil => rfl
    | cons first rest =>
        rw [hcallbacks, hbefore, List.cons_append] at hsplit
        injection hsplit with _ hrest
        obtain ⟨message, hmessage | hmessage⟩ := hdata (.onConnect handler) (by simp [hrest]) <;>
          cases hmessage
  · rw [h.before hsocket] at hsplit
    exact absurd hsplit.symm (by simp)

theorem callee_of_callbacks {calls : List Entry} (h : callbacks calls = []) :
    ∀ entry ∈ calls, entry.call.callee = none := by
  intro entry hentry
  rw [callbacks, List.filter_eq_nil_iff] at h
  have hcall := h entry.call (List.mem_map_of_mem hentry)
  rwa [Bool.not_eq_true, Option.isSome_eq_false_iff, Option.isNone_iff_eq_none] at hcall

theorem callbacks_of_callee {calls : List Entry} (h : callbacks calls = []) (connection : Nat)
    (before : List Entry) : callbacksIn connection before calls = [] :=
  callbacksIn_eq_nil connection before (callee_of_callbacks h)

/-- A connection that has no callbacks yet is connected in what comes next. -/
theorem exists_before {calls before after : List Entry} {handler : HandlerId} {out : Output}
    (hgrows : calls <+: before ++ ⟨.onConnect handler, out⟩ :: after) (hnone : callbacks calls = []) :
    ∃ more, before = calls ++ more := by
  have hprefix : before ++ [⟨.onConnect handler, out⟩] <+: before ++ ⟨.onConnect handler, out⟩ :: after := by
    refine ⟨after, ?_⟩
    rw [List.append_assoc]
    rfl
  rcases List.prefix_or_prefix_of_prefix hgrows hprefix with hshort | hlong
  · rcases List.prefix_concat_iff.mp hshort with hwhole | hpart
    · rw [hwhole, callbacks_append] at hnone
      exact absurd (List.append_eq_nil_iff.mp hnone).2 (by simp [callbacks, Call.callee])
    · obtain ⟨more, hmore⟩ := hpart
      exact ⟨more, hmore.symm⟩
  · obtain ⟨more, hmore⟩ := hlong
    rw [← hmore, callbacks_append, callbacks_append] at hnone
    have hnothing := (List.append_eq_nil_iff.mp (List.append_eq_nil_iff.mp hnone).1).2
    exact absurd hnothing (by simp [callbacks, Call.callee])

end Connection

/-! ### The invariant -/

namespace Hub

open Connection

variable {worlds : Nat → World} {handlers : Handlers σ} {s₀ : σ} {h h' : Hub σ}

/-- Since its handler was connected, a connection has been sent what the handlers make of the callbacks
since then for it. -/
def Attends (w : World) (handlers : Handlers σ) (s₀ : σ) (history : List Callback) (connection : Nat)
    (c : Connection) : Prop :=
  ∃ (earlier later : List Callback) (c₀ : Connection) (handler : HandlerId) (calls : List Entry)
    (messages : List HybiPacketDecoder.Message),
    history = earlier ++ ⟨connection, c₀.calls ++ [⟨.onConnect handler, c₀.out⟩]⟩ :: later ∧
    c₀.out.hadSendError = false ∧ Opened w handler c₀ ∧ Talks (⟨.onConnect handler, c₀.out⟩ :: calls)
      (Reactor.mailFor connection
        (handlers.replay (⟨connection, c₀.calls ++ [⟨.onConnect handler, c₀.out⟩]⟩ :: later)
          (handlers.replay earlier s₀).1).2) messages c₀ c

/-- More callbacks, with what they say to the connection. -/
theorem Attends.trans {w : World} {history callbacks : List Callback} {connection : Nat} {c c' : Connection}
    {calls : List Entry} {messages : List HybiPacketDecoder.Message}
    (h : Attends w handlers s₀ history connection c) (htalk : Talks calls (Reactor.mailFor connection
      (handlers.replay callbacks (handlers.replay history s₀).1).2) messages c c') :
    Attends w handlers s₀ (history ++ callbacks) connection c' := by
  obtain ⟨earlier, later, c₀, handler, calls₀, messages₀, hhistory, hnoError, hopened, htalk₀⟩ := h
  refine ⟨earlier, later ++ callbacks, c₀, handler, calls₀ ++ calls, messages₀ ++ messages, ?_, hnoError,
    hopened, ?_⟩
  · rw [hhistory, List.append_assoc]
    rfl
  · have hboth := htalk₀.trans htalk
    rw [hhistory, Reactor.replay_append] at hboth
    rw [← List.cons_append, ← List.cons_append, Reactor.replay_append, Reactor.mailFor_append]
    exact hboth

structure Invariant (worlds : Nat → World) (handlers : Handlers σ) (s₀ : σ) (h : Hub σ) : Prop where
  state : h.state = (handlers.replay h.history s₀).1
  bounded : ∀ callback ∈ h.history, callback.connection < h.connections.length
  regular : ∀ (connection : Nat) (c : Connection), h.connections[connection]? = some c → Regular c
  own : ∀ (connection : Nat) (c : Connection), h.connections[connection]? = some c →
    (h.history.filter fun callback => callback.connection = connection) = callbacksIn connection [] c.calls
  attends : ∀ (connection : Nat) (c : Connection), h.connections[connection]? = some c → c.alive = true →
    c.state = .handlingHybiWebSocket → c.perMessageDeflate = false →
    Attends (worlds connection) handlers s₀ h.history connection c

theorem invariant_start : Invariant worlds handlers s₀ (start s₀) where
  state := rfl
  bounded := fun callback hcallback => by cases hcallback
  regular := fun connection c hc => by cases hc
  own := fun connection c hc => by cases hc
  attends := fun connection c hc => by cases hc

/-! ### Steps -/

theorem use_used {connection : Nat} {call : WsCall} (huse : use worlds connection call h = .ok h') :
    ∃ c c', h.connections[connection]? = some c ∧ c.alive = true ∧ Used [call] c c' ∧
      h' = { h with connections := h.connections.set connection c' } := by
  rw [use] at huse
  cases hc : h.connections[connection]? with
  | none =>
      rw [hc] at huse
      cases huse
  | some c =>
      rw [hc] at huse
      dsimp only at huse
      have hends : Ends (Connection.step (worlds connection) (.socket call)) c
          (fun _ c' => c.alive = true ∧ Used [call] c c') Faulted := by
        rw [Connection.step, ends_bind, ends_get]
        dsimp only
        rw [ends_ite]
        refine ⟨fun halive => ?_, fun _ => ends_fault.mpr ⟨_, rfl⟩⟩
        exact (wsCall_used call c).mono (fun _ _ hused => ⟨halive, hused⟩) fun _ _ => False.elim
      cases hrun : (Connection.step (worlds connection) (.socket call)).run c with
      | ok result c' =>
          rw [hrun] at huse
          rw [ends_of_run_ok hrun] at hends
          injection huse with huse
          exact ⟨c, c', rfl, hends.1, hends.2, huse.symm⟩
      | error e c' =>
          rw [ends_of_run_error hrun] at hends
          obtain ⟨f, rfl⟩ := hends
          rw [hrun] at huse
          cases huse

theorem mailFor_cons {connection other : Nat} {call : WsCall} {sent : List (Nat × WsCall)} :
    Reactor.mailFor connection ((other, call) :: sent) =
      (if other = connection then [call] else []) ++ Reactor.mailFor connection sent := by
  rw [Reactor.mailFor, List.filterMap_cons]
  dsimp only
  split_ifs <;> rfl

/-- What the uses of other connections come to for each connection. -/
theorem uses_used {sent : List (Nat × WsCall)} (huses : uses worlds sent h = .ok h') :
    h'.state = h.state ∧ h'.history = h.history ∧ h'.connections.length = h.connections.length ∧
      ∀ (connection : Nat) (c : Connection), h.connections[connection]? = some c →
        ∃ c', h'.connections[connection]? = some c' ∧ Used (Reactor.mailFor connection sent) c c' := by
  induction sent generalizing h with
  | nil =>
      injection huses with huses
      subst huses
      exact ⟨rfl, rfl, rfl, fun connection c hc => ⟨c, hc, Used.refl c⟩⟩
  | cons entry sent ih =>
      obtain ⟨other, call⟩ := entry
      obtain ⟨h₁, huse, hrest⟩ := ok_of_bind_eq_ok huses
      obtain ⟨c₀, c₁, hc₀, -, hused, rfl⟩ := use_used huse
      obtain ⟨hstate, hhistory, hlength, hothers⟩ := ih hrest
      refine ⟨hstate, hhistory, hlength.trans List.length_set, fun connection c hc => ?_⟩
      rw [mailFor_cons]
      by_cases hsame : other = connection
      · subst hsame
        rw [hc₀] at hc
        injection hc with hc
        subst hc
        obtain ⟨c', hc', hused'⟩ := hothers other c₁
          (List.getElem?_set_self (List.getElem?_eq_some_iff.mp hc₀).1)
        rw [if_pos rfl]
        exact ⟨c', hc', hused.trans hused'⟩
      · obtain ⟨c', hc', hused'⟩ := hothers connection c ((List.getElem?_set_ne hsame).trans hc)
        rw [if_neg hsame]
        exact ⟨c', hc', hused'⟩

/-- Connections that are alive can be used. -/
theorem uses_ok {sent : List (Nat × WsCall)}
    (hlive : ∀ entry ∈ sent, ∃ c, h.connections[entry.1]? = some c ∧ c.alive = true) :
    ∃ h', uses worlds sent h = .ok h' := by
  induction sent generalizing h with
  | nil => exact ⟨h, rfl⟩
  | cons entry sent ih =>
      obtain ⟨connection, call⟩ := entry
      rw [List.forall_mem_cons] at hlive
      obtain ⟨⟨c, hc, halive⟩, hrest⟩ := hlive
      have hends : Ends (Connection.step (worlds connection) (.socket call)) c
          (fun _ c' => c'.alive = true) fun _ _ => False := by
        rw [Connection.step, ends_bind, ends_get]
        dsimp only
        rw [if_pos halive]
        exact (wsCall_used call c).mono (fun _ _ hused => hused.alive.trans halive) fun _ _ => id
      obtain ⟨result, c', hrun, halive'⟩ := hends.returns
      have huse : use worlds connection call h =
          .ok { h with connections := h.connections.set connection c' } := by
        rw [use, hc]
        dsimp only
        rw [hrun]
      have hstill : ∀ entry ∈ sent, ∃ c, (h.connections.set connection c')[entry.1]? = some c ∧
          c.alive = true := by
        intro entry hentry
        obtain ⟨c₁, hc₁, halive₁⟩ := hrest entry hentry
        by_cases hsame : connection = entry.1
        · subst hsame
          exact ⟨c', List.getElem?_set_self (List.getElem?_eq_some_iff.mp hc).1, halive'⟩
        · exact ⟨c₁, (List.getElem?_set_ne hsame).trans hc₁, halive₁⟩
      rw [uses, huse]
      exact ih (h := { h with connections := h.connections.set connection c' }) hstill

/-- What is said to a connection that stays upgraded. -/
theorem Attends.used (callbacks : List Callback) {w : World} {history : List Callback} {connection : Nat}
    {c c' : Connection} {uses : List WsCall} (h : Attends w handlers s₀ history connection c)
    (hused : Used uses c c')
    (hstate : c.state = .handlingHybiWebSocket) (hplain : c.perMessageDeflate = false)
    (huses : uses =
      Reactor.mailFor connection (handlers.replay callbacks (handlers.replay history s₀).1).2) :
    Attends w handlers s₀ (history ++ callbacks) connection c' := by
  obtain ⟨messages, htold⟩ := hused.told hstate hplain
  rw [huses] at htold
  exact h.trans htold

/-- The handlers make no difference to a handshake. -/
theorem opened_of_serving {w : World} {s : σ} {connection : Nat} {before : List Entry} {handler : HandlerId}
    {c : Connection} (h : Opened (w.serving handlers s connection before) handler c) : Opened w handler c := by
  obtain ⟨before', request, base, hcalls, hopening⟩ := h
  exact ⟨before', request, base, hcalls, hopening.asks, hopening.registered, hopening.noError, hopening.closing,
    hopening.emits⟩

/-- The event of a connection, as far as the connection itself goes. -/
theorem attends_own {connection : Nat} {event : Seasocks.Event} {c c' : Connection}
    (hinv : Invariant worlds handlers s₀ h) (hc : h.connections[connection]? = some c)
    (hevent : isOwn event = true)
    (hcontinues : Continues
      (Connection.step ((worlds connection).serving handlers h.state connection c.calls) event) c c')
    (halive : c'.alive = true) (hstate : c'.state = .handlingHybiWebSocket)
    (hplain : c'.perMessageDeflate = false) :
    Attends (worlds connection) handlers s₀
      (h.history ++ callbacksIn connection c.calls (c'.calls.drop c.calls.length))
      connection c' := by
  have hregular := hinv.regular connection c hc
  have halive₀ : c.alive = true := (hcontinues.alive hevent).symm.trans halive
  by_cases hstate₀ : c.state = .handlingHybiWebSocket
  · by_cases hplain₀ : c.perMessageDeflate = false
    · obtain ⟨handler, -, hsome, -⟩ := (hregular.connected halive₀).after (Or.inr hstate₀)
      have hhandler : c.webSocketHandler ≠ none := by simp [hsome]
      obtain ⟨-, -, -, calls, messages, htalk⟩ := hcontinues.conversed hevent hstate₀ hplain₀ hhandler
      have hdrop : c'.calls.drop c.calls.length = calls := by
        rw [htalk.calls_eq, List.drop_left]
      rw [said_serving, hinv.state] at htalk
      rw [hdrop]
      exact (hinv.attends connection c hc halive₀ hstate₀ hplain₀).trans htalk
    · have hdeflate : c'.perMessageDeflate = true :=
        hcontinues.invariant (fun c => c.perMessageDeflate = true) (fun _ _ h hstep => hstep.deflate h)
          (fun e c₁ c₂ h hlast => by cases hlast <;> exact h) (Bool.eq_true_of_not_eq_false hplain₀)
      rw [hdeflate] at hplain
      cases hplain
  · obtain ⟨c₀, handler, calls, messages, -, hnoError, hopened, htalk⟩ :=
      hcontinues.joined hevent hregular hstate₀ hstate hplain
    have hnone := (hregular.connected halive₀).before (hcontinues.fresh hstate₀ hstate)
    have hgrows := hcontinues.calls_grow
    rw [htalk.calls_eq] at hgrows
    obtain ⟨more, hmore⟩ := exists_before hgrows hnone
    have hsilent : callbacks more = [] := by
      have hbefore := ((hcontinues.regular hregular).connected halive).split htalk.calls_eq
      rw [hmore, callbacks_append] at hbefore
      exact (List.append_eq_nil_iff.mp hbefore).2
    have hdrop : c'.calls.drop c.calls.length = more ++ ⟨.onConnect handler, c₀.out⟩ :: calls := by
      rw [htalk.calls_eq, hmore, List.append_assoc, List.drop_left]
    have hsaid : said ((worlds connection).serving handlers h.state connection c.calls) c₀.calls
          (⟨.onConnect handler, c₀.out⟩ :: calls) =
        Reactor.mailFor connection (handlers.replay
          (callbacksIn connection c.calls (more ++ ⟨.onConnect handler, c₀.out⟩ :: calls)) h.state).2 := by
      have hwhole : said ((worlds connection).serving handlers h.state connection c.calls) c.calls
          (more ++ ⟨.onConnect handler, c₀.out⟩ :: calls) = Reactor.mailFor connection (handlers.replay
            (callbacksIn connection c.calls (more ++ ⟨.onConnect handler, c₀.out⟩ :: calls)) h.state).2 :=
        said_serving _
      rw [said_append, said_eq_nil _ (callee_of_callbacks hsilent), ← hmore] at hwhole
      exact hwhole
    have hjoined : callbacksIn connection c.calls (more ++ ⟨.onConnect handler, c₀.out⟩ :: calls) =
        ⟨connection, c₀.calls ++ [⟨.onConnect handler, c₀.out⟩]⟩
          :: callbacksIn connection (c₀.calls ++ [⟨.onConnect handler, c₀.out⟩]) calls := by
      rw [callbacksIn_append, callbacks_of_callee hsilent, ← hmore, callbacksIn]
      rfl
    rw [hdrop, hjoined]
    rw [hsaid, hjoined, hinv.state] at htalk
    exact ⟨h.history, _, c₀, handler, calls, messages, rfl, hnoError, opened_of_serving hopened, htalk⟩

theorem stepConnection_cases {connection : Nat} {event : Seasocks.Event}
    (hstep : stepConnection worlds handlers connection event h = .ok h') :
    ∃ c c', h.connections[connection]? = some c ∧
      Continues (Connection.step
        ((worlds connection).serving handlers h.state connection c.calls) event) c c' ∧
      uses worlds
        (Reactor.mailExcept connection (handlers.replay
          (callbacksIn connection c.calls (c'.calls.drop c.calls.length)) h.state).2)
        { connections := h.connections.set connection c'
          state := (handlers.replay
            (callbacksIn connection c.calls (c'.calls.drop c.calls.length)) h.state).1
          history := h.history ++ callbacksIn connection c.calls (c'.calls.drop c.calls.length) } =
        .ok h' := by
  rw [stepConnection] at hstep
  cases hc : h.connections[connection]? with
  | none =>
      rw [hc] at hstep
      cases hstep
  | some c =>
      rw [hc] at hstep
      dsimp only at hstep
      cases hrun : (Connection.step
          ((worlds connection).serving handlers h.state connection c.calls) event).run c with
      | ok result c' =>
          rw [hrun] at hstep
          exact ⟨c, c', rfl, Or.inl hrun, hstep⟩
      | error e c' =>
          rw [hrun] at hstep
          cases e with
          | fault f => cases hstep
          | exception e => exact ⟨c, c', rfl, Or.inr ⟨e, hrun⟩, hstep⟩

/-- A read by an upgraded connection that stays open. -/
theorem Invariant.read_left {connection : Nat} {received : Piece} {c c' : Connection}
    (hinv : Invariant worlds handlers s₀ h)
    (hread : step worlds handlers (.readable connection (.data received)) h = .ok h')
    (hc : h.connections[connection]? = some c) (hstate : c.state = .handlingHybiWebSocket)
    (hplain : c.perMessageDeflate = false) (hc' : h'.connections[connection]? = some c')
    (hopen : c'.closing = false) :
    c'.alive = true ∧ c'.state = .handlingHybiWebSocket ∧ c'.perMessageDeflate = false ∧
      scan c'.inBuf = .incomplete ∧ stream c' = stream c ++ received.val := by
  obtain ⟨c₀, c₁, hc₀, hcontinues, huses⟩ := stepConnection_cases hread
  rw [hc] at hc₀
  injection hc₀ with hc₀
  subst hc₀
  obtain ⟨-, -, -, hothers⟩ := uses_used huses
  obtain ⟨c₂, hc₂, hused⟩ := hothers connection c₁
    (List.getElem?_set_self (List.getElem?_eq_some_iff.mp hc).1)
  rw [hc'] at hc₂
  injection hc₂ with hc₂
  subst hc₂
  have hopen₁ : c₁.closed = false := by
    by_contra hclosed
    rw [Bool.not_eq_false] at hclosed
    rw [hused.closing (Output.closing_of_closed hclosed)] at hopen
    cases hopen
  have hleft := hcontinues.of_ends (fun c₁ => c.alive = true ∧ (c₁.closed = false →
    scan c₁.inBuf = .incomplete ∧ stream c₁ = stream c ++ received.val))
    ((step_read_left received hstate).mono (fun _ _ => id) fun _ _ => Or.inr)
  obtain ⟨halive, hleft⟩ := hleft
  obtain ⟨hincomplete, hstream⟩ := hleft hopen₁
  obtain ⟨handler, -, hsome, -⟩ := ((hinv.regular connection c hc).connected halive).after (Or.inr hstate)
  have hconversed := hcontinues.conversed rfl hstate hplain (by simp [hsome])
  refine ⟨?_, ?_, ?_, hused.input.1 ▸ hincomplete, hused.input.stream_eq.trans hstream⟩
  · rw [hused.alive, hcontinues.alive rfl]
    exact halive
  · rw [hused.state, hconversed.state]
    exact hstate
  · rw [hused.plain, hconversed.plain]
    exact hplain

theorem callbacks_of_other {connection other : Nat} (hne : connection ≠ other) (before calls : List Entry) :
    ((callbacksIn connection before calls).filter fun callback => callback.connection = other) = [] := by
  rw [List.filter_eq_nil_iff]
  intro callback hcallback
  rw [connection_of_mem_callbacksIn hcallback, decide_eq_true_eq]
  exact hne

theorem callbacks_of_same (connection : Nat) (before calls : List Entry) :
    ((callbacksIn connection before calls).filter fun callback => callback.connection = connection) =
      callbacksIn connection before calls := by
  rw [List.filter_eq_self]
  intro callback hcallback
  exact decide_eq_true (connection_of_mem_callbacksIn hcallback)

theorem Invariant.stepConnection {connection : Nat} {event : Seasocks.Event}
    (hinv : Invariant worlds handlers s₀ h) (hevent : isOwn event = true ∨ event = .destroy)
    (hstep : Hub.stepConnection worlds handlers connection event h = .ok h') :
    Invariant worlds handlers s₀ h' := by
  obtain ⟨c, c', hc, hcontinues, huses⟩ := stepConnection_cases hstep
  obtain ⟨hstate, hhistory, hlength, hothers⟩ := uses_used huses
  have hbound : connection < h.connections.length := (List.getElem?_eq_some_iff.mp hc).1
  have hgrows := hcontinues.calls_grow
  set callbacks := callbacksIn connection c.calls (c'.calls.drop c.calls.length) with hcallbacks
  have hreplay : (handlers.replay (h.history ++ callbacks) s₀).1 = (handlers.replay callbacks h.state).1 := by
    rw [Reactor.replay_append, hinv.state]
  -- What each connection was before the other connections were used.
  have hbefore : ∀ (other : Nat) (c₂ : Connection), h'.connections[other]? = some c₂ →
      ∃ c₁, (h.connections.set connection c')[other]? = some c₁ ∧
        Used (Reactor.mailFor other
          (Reactor.mailExcept connection (handlers.replay callbacks h.state).2)) c₁ c₂ := by
    intro other c₂ hc₂
    have hlt : other < (h.connections.set connection c').length := by
      rw [← hlength]
      exact (List.getElem?_eq_some_iff.mp hc₂).1
    obtain ⟨c₂', hc₂', hused⟩ := hothers other _ (List.getElem?_eq_getElem hlt)
    rw [hc₂] at hc₂'
    injection hc₂' with hsame
    subst hsame
    exact ⟨_, List.getElem?_eq_getElem hlt, hused⟩
  refine ⟨?_, ?_, ?_, ?_, ?_⟩
  · rw [hstate, hhistory, hreplay]
  · intro callback hcallback
    rw [hlength, List.length_set]
    rw [hhistory, List.mem_append] at hcallback
    rcases hcallback with hold | hnew
    · exact hinv.bounded callback hold
    · rw [connection_of_mem_callbacksIn hnew]
      exact hbound
  · intro other c₂ hc₂
    obtain ⟨c₁, hc₁, hused⟩ := hbefore other c₂ hc₂
    refine hused.regular ?_
    by_cases hsame : connection = other
    · subst hsame
      rw [List.getElem?_set_self hbound] at hc₁
      injection hc₁ with hc₁
      subst hc₁
      exact hcontinues.regular (hinv.regular connection c hc)
    · rw [List.getElem?_set_ne hsame] at hc₁
      exact hinv.regular other c₁ hc₁
  · intro other c₂ hc₂
    obtain ⟨c₁, hc₁, hused⟩ := hbefore other c₂ hc₂
    rw [hhistory, List.filter_append, hused.callbacksIn_eq]
    by_cases hsame : connection = other
    · subst hsame
      rw [List.getElem?_set_self hbound] at hc₁
      injection hc₁ with hc₁
      subst hc₁
      obtain ⟨calls, hcalls⟩ := hgrows
      rw [hinv.own connection c hc, hcallbacks, callbacks_of_same, ← hcalls, List.drop_left,
        callbacksIn_append]
      rfl
    · rw [List.getElem?_set_ne hsame] at hc₁
      rw [hinv.own other c₁ hc₁, hcallbacks, callbacks_of_other hsame, List.append_nil]
  · intro other c₂ hc₂ halive hhybi hplain
    obtain ⟨c₁, hc₁, hused⟩ := hbefore other c₂ hc₂
    have halive₁ : c₁.alive = true := hused.alive.symm.trans halive
    have hhybi₁ := hused.state.symm.trans hhybi
    have hplain₁ := hused.plain.symm.trans hplain
    rw [hhistory]
    by_cases hsame : connection = other
    · subst hsame
      rw [List.getElem?_set_self hbound] at hc₁
      injection hc₁ with hc₁
      subst hc₁
      rw [Reactor.mailFor_mailExcept_self] at hused
      have hown : isOwn event = true := by
        refine hevent.resolve_right ?_
        rintro rfl
        rw [hcontinues.destroyed.2] at halive₁
        cases halive₁
      have hattends := attends_own hinv hc hown hcontinues halive₁ hhybi₁ hplain₁
      have hmore := hattends.used [] hused hhybi₁ hplain₁ rfl
      rwa [List.append_nil] at hmore
    · rw [List.getElem?_set_ne hsame] at hc₁
      rw [Reactor.mailFor_mailExcept (Ne.symm hsame), hinv.state] at hused
      exact (hinv.attends other c₁ hc₁ halive₁ hhybi₁ hplain₁).used callbacks hused hhybi₁ hplain₁ rfl

theorem Invariant.step {event : Event} (hinv : Invariant worlds handlers s₀ h)
    (hstep : Hub.step worlds handlers event h = .ok h') : Invariant worlds handlers s₀ h' := by
  cases event with
  | accept =>
      injection hstep with hstep
      subst hstep
      have hold : ∀ (connection : Nat) (c : Connection),
          (h.connections ++ [Connection.fresh])[connection]? = some c →
          h.connections[connection]? = some c ∨ connection = h.connections.length ∧ c = Connection.fresh := by
        intro connection c hc
        rw [List.getElem?_append] at hc
        split_ifs at hc with hlt
        · exact Or.inl hc
        · have hlast := (List.getElem?_eq_some_iff.mp hc).1
          rw [List.length_singleton] at hlast
          have hzero : connection - h.connections.length = 0 := by omega
          rw [hzero] at hc
          injection hc with hc
          exact Or.inr ⟨by omega, hc.symm⟩
      refine ⟨hinv.state, fun callback hcallback => ?_, fun connection c hc => ?_, fun connection c hc => ?_,
        fun connection c hc halive hstate hplain => ?_⟩
      · rw [List.length_append, List.length_singleton]
        exact Nat.lt_succ_of_lt (hinv.bounded callback hcallback)
      · rcases hold connection c hc with hc | ⟨-, rfl⟩
        · exact hinv.regular connection c hc
        · exact regular_fresh
      · rcases hold connection c hc with hc | ⟨rfl, rfl⟩
        · exact hinv.own connection c hc
        · refine List.filter_eq_nil_iff.mpr fun callback hcallback => ?_
          rw [decide_eq_true_eq]
          exact (hinv.bounded callback hcallback).ne
      · rcases hold connection c hc with hc | ⟨-, rfl⟩
        · exact hinv.attends connection c hc halive hstate hplain
        · cases hstate
  | readable connection result => exact hinv.stepConnection (Or.inl rfl) hstep
  | writable connection => exact hinv.stepConnection (Or.inl rfl) hstep
  | writer connection call => exact hinv.stepConnection (Or.inl rfl) hstep
  | destroy connection => exact hinv.stepConnection (Or.inr rfl) hstep

theorem Invariant.run {events : List Event} (hinv : Invariant worlds handlers s₀ h)
    (hrun : Hub.run worlds handlers events h = .ok h') : Invariant worlds handlers s₀ h' := by
  induction events generalizing h with
  | nil =>
      injection hrun with hrun
      exact hrun ▸ hinv
  | cons event events ih =>
      obtain ⟨h₁, hstep, hrest⟩ := ok_of_bind_eq_ok hrun
      exact ih (hinv.step hstep) hrest

/-! ### What is served -/

/-- After its handler has been connected, the callbacks of an upgraded connection are data, and before that
it has none. -/
theorem Invariant.data {connection : Nat} {c : Connection} {earlier later : List Callback}
    {joined : Callback} {handler : HandlerId} (hinv : Invariant worlds handlers s₀ h)
    (hc : h.connections[connection]? = some c) (halive : c.alive = true) (hsocket : IsWebSocket c)
    (hhistory : h.history = earlier ++ joined :: later) (hjoined : joined.connection = connection)
    (hcall : joined.call = some (.onConnect handler)) :
    (∀ callback ∈ earlier, callback.connection ≠ connection) ∧
      ∀ callback ∈ later, callback.connection = connection →
        ∃ call, callback.call = some call ∧ IsData handler call := by
  have hown := hinv.own connection c hc
  obtain ⟨handler', data, -, hcallbacks, hdata⟩ :=
    ((hinv.regular connection c hc).connected halive).after hsocket
  have hcalls : (h.history.filter fun callback => callback.connection = connection).filterMap Callback.call =
      .onConnect handler' :: data := by
    rw [hown, call_callbacksIn, hcallbacks]
  rw [hhistory, List.filter_append, List.filter_cons_of_pos (by simpa using hjoined), List.filterMap_append,
    List.filterMap_cons, hcall] at hcalls
  dsimp only at hcalls
  cases hbefore : (earlier.filter fun callback => callback.connection = connection).filterMap Callback.call with
  | cons first rest =>
      rw [hbefore, List.cons_append] at hcalls
      injection hcalls with _ hrest
      obtain ⟨message, hmessage | hmessage⟩ := hdata (.onConnect handler) (by simp [← hrest]) <;>
        cases hmessage
  | nil =>
      rw [hbefore, List.nil_append] at hcalls
      injection hcalls with hfirst hlater
      injection hfirst with hhandler
      subst hhandler
      have hsome : ∀ callback ∈ h.history, callback.connection = connection →
          ∃ call, callback.call = some call := by
        intro callback hcallback hsame
        have hmem : callback ∈ h.history.filter fun callback => callback.connection = connection :=
          List.mem_filter.mpr ⟨hcallback, by simpa using hsame⟩
        rw [hown] at hmem
        obtain ⟨call, -, hcall⟩ := call_of_mem_callbacksIn hmem
        exact ⟨call, hcall⟩
      constructor
      · intro callback hcallback hsame
        rw [List.filterMap_eq_nil_iff] at hbefore
        have hnone := hbefore callback (List.mem_filter.mpr ⟨hcallback, by simpa using hsame⟩)
        obtain ⟨call, hcall'⟩ := hsome callback (by simp [hhistory, hcallback]) hsame
        rw [hnone] at hcall'
        cases hcall'
      · intro callback hcallback hsame
        obtain ⟨call, hcall'⟩ := hsome callback (by simp [hhistory, hcallback]) hsame
        refine ⟨call, hcall', hdata call ?_⟩
        rw [← hlater]
        exact List.mem_filterMap.mpr ⟨callback, List.mem_filter.mpr ⟨hcallback, by simpa using hsame⟩, hcall'⟩

/-- The callbacks of a connection since it was connected, by the history and by its own log. -/
theorem Invariant.callbacks_eq {connection : Nat} {c : Connection} {earlier later : List Callback}
    {joined : Callback} {handler : HandlerId} {base : Output} {before calls : List Entry}
    (hinv : Invariant worlds handlers s₀ h) (hc : h.connections[connection]? = some c) (halive : c.alive = true)
    (hhistory : h.history = earlier ++ joined :: later)
    (hearlier : ∀ callback ∈ earlier, callback.connection ≠ connection)
    (hcalls : c.calls = before ++ ⟨.onConnect handler, base⟩ :: calls) :
    ((joined :: later).filter fun callback => callback.connection = connection).filterMap Callback.call =
      callbacks (⟨.onConnect handler, base⟩ :: calls) := by
  have hnone : (earlier.filter fun callback => callback.connection = connection) = [] :=
    List.filter_eq_nil_iff.mpr fun callback hcallback => by simpa using hearlier callback hcallback
  have hown := congrArg (List.filterMap Callback.call) (hinv.own connection c hc)
  rw [call_callbacksIn, hhistory, List.filter_append, hnone, List.nil_append, hcalls, callbacks_append,
    ((hinv.regular connection c hc).connected halive).split hcalls] at hown
  exact hown

/-- What an open connection has emitted. -/
theorem emitted_of_open {calls : List Entry} {uses : List WsCall} {messages : List HybiPacketDecoder.Message}
    {c₀ c : Connection} (htalk : Talks calls uses messages c₀ c) (hnoError : c₀.out.hadSendError = false)
    (hunfailed : Output.Unfailed c.out) (hopen : c.closing = false) :
    Output.emitted c.out = Output.emitted c₀.out ++ wire messages := by
  obtain ⟨events, hlog, hframed⟩ := htalk.framed
  refine (hframed hnoError).2 fun event hevent => hunfailed hopen event ?_
  rw [hlog]
  exact List.mem_append_right _ hevent

/-- The state of the handlers is what comes of the history of callbacks. Each WebSocket on a connection that
is alive was connected once in it, and since then it has been called back for the messages in the frames it
has taken. The frames behind its handshake are the answers to the pings among them and, in the order of the
history, what the handlers send it: a beginning of that, and all of it as long as it is open. -/
theorem run_served {events : List Event} {connection : Nat} {c : Connection}
    (hrun : run worlds handlers events (start s₀) = .ok h) (hc : h.connections[connection]? = some c)
    (halive : c.alive = true) (hstate : c.state = .handlingHybiWebSocket)
    (hplain : c.perMessageDeflate = false) :
    h.state = (handlers.replay h.history s₀).1 ∧
      ∃ (earlier later : List Callback) (joined : Callback) (handler : HandlerId) (base : Output)
        (before calls : List Entry) (messages : List HybiPacketDecoder.Message),
        h.history = earlier ++ joined :: later ∧
        joined = ⟨connection, before ++ [⟨.onConnect handler, base⟩]⟩ ∧
        (∀ callback ∈ earlier, callback.connection ≠ connection) ∧
        (∀ callback ∈ later, callback.connection = connection →
          ∃ call, callback.call = some call ∧ IsData handler call) ∧
        c.calls = before ++ ⟨.onConnect handler, base⟩ :: calls ∧
        heard calls = sentIn calls ∧ pongs messages = pings calls ∧
        Output.Begins (wire messages) base c.out ∧
        speech messages <+: spoken (Reactor.mailFor connection
          (handlers.replay (joined :: later) (handlers.replay earlier s₀).1).2) ∧
        (c.closing = false →
          speech messages = spoken (Reactor.mailFor connection
            (handlers.replay (joined :: later) (handlers.replay earlier s₀).1).2) ∧
          Output.emitted c.out = Output.emitted base ++ wire messages) := by
  have hinv := invariant_start.run hrun
  refine ⟨hinv.state, ?_⟩
  obtain ⟨earlier, later, c₀, handler, calls, messages, hhistory, hnoError, -, htalk⟩ :=
    hinv.attends connection c hc halive hstate hplain
  have hcall : Callback.call ⟨connection, c₀.calls ++ [⟨.onConnect handler, c₀.out⟩]⟩ =
      some (.onConnect handler) := by
    rw [Callback.call, List.getLast?_concat]
    rfl
  obtain ⟨hearlier, hlater⟩ := hinv.data hc halive (Or.inr hstate) hhistory rfl hcall
  have hpings : pings (⟨.onConnect handler, c₀.out⟩ :: calls) = pings calls := rfl
  refine ⟨earlier, later, _, handler, c₀.out, c₀.calls, calls, messages, hhistory, rfl, hearlier, hlater,
    htalk.calls_eq, htalk.delivered, htalk.answers.trans hpings, htalk.begun, htalk.prefix_spoken,
    fun hopen => ⟨htalk.whole hopen, ?_⟩⟩
  exact emitted_of_open htalk hnoError (hinv.regular connection c hc).unfailed hopen

/-! ### A run -/

/-- A WebSocket without compression that is open. -/
def isOpen (connection : Nat) (h : Hub σ) : Bool :=
  match h.connections[connection]? with
  | none => false
  | some c =>
      decide (c.alive = true ∧ c.state = .handlingHybiWebSocket ∧ c.perMessageDeflate = false ∧
        c.closing = false)

theorem exists_of_isOpen {connection : Nat} (hopen : isOpen connection h = true) :
    ∃ c, h.connections[connection]? = some c ∧ c.alive = true ∧ c.state = .handlingHybiWebSocket ∧
      c.perMessageDeflate = false ∧ c.closing = false := by
  rw [isOpen] at hopen
  cases hc : h.connections[connection]? with
  | none =>
      rw [hc] at hopen
      cases hopen
  | some c =>
      rw [hc] at hopen
      exact ⟨c, rfl, of_decide_eq_true hopen⟩

/-- A text frame. -/
def greetingFrame : Piece := ⟨[0x81, 2, 104, 105], by decide⟩

/-- One client of the echo, which has sent a message. -/
def greetingEvents : List Event :=
  [.accept, .readable 0 (.data chatRequest), .readable 0 (.data greetingFrame)]

theorem run_served_greeting :
    ∃ h c, run (fun _ => World.chat) echoHandler greetingEvents (start ()) = .ok h ∧
      h.connections[0]? = some c ∧ ∃ base messages, Output.emitted c.out = Output.emitted base ++ wire messages ∧
        ∃ earlier later, speech messages = spoken (Reactor.mailFor 0 (echoHandler.replay later
          (echoHandler.replay earlier ()).1).2) ∧ h.history = earlier ++ later := by
  have hcheck : (do
      let h ← run (fun _ => World.chat) echoHandler greetingEvents (start ())
      return isOpen 0 h) = .ok true := by decide +kernel
  obtain ⟨h, hrun, hcheck⟩ := ok_of_bind_eq_ok hcheck
  injection hcheck with hcheck
  obtain ⟨c, hc, halive, hstate, hplain, hopen⟩ := exists_of_isOpen hcheck
  obtain ⟨-, earlier, later, joined, handler, base, before, calls, messages, hhistory, -, -, -, -, -, -, -, -,
    hwhole⟩ := run_served hrun hc halive hstate hplain
  obtain ⟨hspeech, hemitted⟩ := hwhole hopen
  exact ⟨h, c, hrun, hc, base, messages, hemitted, earlier, joined :: later, hspeech, hhistory⟩

end Hub

end Seasocks
