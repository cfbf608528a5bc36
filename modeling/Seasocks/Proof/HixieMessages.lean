import Seasocks.Proof.Emission
import Seasocks.Proof.Recutting

/-!
# Hixie messages

The messages of a Hixie connection, from the key of its handshake on, however the stream is cut into
reads.
-/

namespace Seasocks

/-- The message a call hands to `onData`. -/
def Call.text : Call → Option Bytes
  | .onText _ data => some data
  | _ => none

namespace Connection

open Program Relation

variable {w : World} {c : Connection} {messages : List Bytes} {tail : Bytes}

/-! ### The stream -/

/-- A message as `send(const char*)` frames it on a Hixie connection. -/
def hixieFrame (message : Bytes) : Bytes := 0 :: message ++ [0xff]

/-- Framed messages, and what follows them. -/
def hixieStream (messages : List Bytes) (tail : Bytes) : Bytes :=
  messages.flatMap hixieFrame ++ tail

/-- Messages that can be framed and are not too long; whatever follows them is not a frame. -/
structure HixieStream (messages : List Bytes) (tail : Bytes) : Prop where
  noMarker : ∀ message ∈ messages, 0 ∉ message
  noEnd : ∀ message ∈ messages, 0xff ∉ message
  fits : ∀ message ∈ messages, (hixieFrame message).length ≤ maxWebsocketMessageSize
  wrong : ∀ first ∈ tail.head?, first ≠ 0

theorem hixieStream_nil (tail : Bytes) : hixieStream [] tail = tail := rfl

theorem hixieStream_cons (message : Bytes) (messages : List Bytes) (tail : Bytes) :
    hixieStream (message :: messages) tail =
      0 :: message ++ 0xff :: hixieStream messages tail := by
  simp [hixieStream, hixieFrame]

theorem hixieStream_eq_nil_iff : hixieStream messages tail = [] ↔ messages = [] ∧ tail = [] := by
  cases messages with
  | nil => simp [hixieStream_nil]
  | cons message messages => simp [hixieStream_cons]

theorem HixieStream.drop {done rest : List Bytes} (h : HixieStream (done ++ rest) tail) :
    HixieStream rest tail where
  noMarker message hmem := h.noMarker message (List.mem_append_right done hmem)
  noEnd message hmem := h.noEnd message (List.mem_append_right done hmem)
  fits message hmem := h.fits message (List.mem_append_right done hmem)
  wrong := h.wrong

/-- `send(const char*)` adds one frame. -/
theorem sendText_emits {message : Bytes} (hstate : c.state = .handlingHixieWebSocket)
    (hopen : c.out.shutdown = false) (hmarker : 0 ∉ message) :
    Ends (sendText w message) c
      (fun _ c' => Output.Emits (hixieFrame message) c.out c'.out) fun _ _ => False := by
  rw [sendText, ends_bind, ends_get, if_pos (by simp [hopen]), if_pos hstate,
    cString_of_not_mem hmarker, ends_bind, ends_liftOut]
  refine (Output.write_false_emits [0]).mono fun done out hfirst => ?_
  rw [ends_ite]
  refine ⟨fun _ => ?_, fun hfailed => ?_⟩
  · rw [ends_bind, ends_liftOut]
    refine (Output.write_false_emits message).mono fun done out' htext => ?_
    rw [ends_ite]
    refine ⟨fun _ => ?_, fun hfailed => ?_⟩
    · rw [ends_bind, ends_liftOut]
      refine (Output.write_emits [0xff] true fun _ => ?_).mono fun _ out'' hend => ?_
      · exact Output.not_truncates_of_lt (by simp)
      · exact (hfirst.1.trans htext.1).trans hend.1
    · exact (hfirst.1.fails (htext.2 (by simpa using hfailed))).emits _
  · exact (hfirst.2 (by simpa using hfailed)).emits _

/-! ### What has been delivered -/

def texts (calls : List Entry) : List Bytes := calls.filterMap fun entry => entry.call.text

theorem texts_append (calls calls' : List Entry) :
    texts (calls ++ calls') = texts calls ++ texts calls' :=
  List.filterMap_append

/-- Messages have been handed to a handler that does not close the connection. -/
structure Told (told : List Bytes) (c c' : Connection) : Prop where
  undisturbed : Undisturbed c c'
  inBuf : c'.inBuf = c.inBuf
  webSocketHandler : c'.webSocketHandler = c.webSocketHandler
  texts : texts c'.calls = texts c.calls ++ told

theorem Told.refl (c : Connection) : Told [] c c :=
  ⟨Undisturbed.refl c, rfl, rfl, (List.append_nil _).symm⟩

theorem Told.trans {told told' : List Bytes} {c' c'' : Connection} (h : Told told c c')
    (h' : Told told' c' c'') : Told (told ++ told') c c'' where
  undisturbed := h.undisturbed.trans h'.undisturbed
  inBuf := h'.inBuf.trans h.inBuf
  webSocketHandler := h'.webSocketHandler.trans h.webSocketHandler
  texts := by rw [h'.texts, h.texts, List.append_assoc]

theorem told_record {call : Call} (h : call.text = none) :
    Told [] c { c with calls := c.calls ++ [⟨call, c.out⟩] } where
  undisturbed := Undisturbed.refl c
  inBuf := rfl
  webSocketHandler := rfl
  texts := by
    rw [texts_append, Connection.texts, Connection.texts, List.filterMap_cons, h]
    rfl

theorem callHandler_told {call : Call} {react : List Entry → List WsCall}
    (h : ∀ calls, .close ∉ react calls) (c : Connection) :
    Ends (callHandler w call react) c (fun _ c' => Told call.text.toList c c')
      fun _ _ => False := by
  refine ((callHandler_ends call react c).and (callHandler_undisturbed h c)).mono ?_
    fun _ _ => And.left
  rintro - c' ⟨hsends, hundisturbed⟩
  obtain ⟨out, calls, rfl, -, hdeflates⟩ := hsends.frame
  refine ⟨hundisturbed, rfl, rfl, ?_⟩
  have hnone : Connection.texts calls = [] := by
    rw [Connection.texts, List.filterMap_eq_nil_iff]
    intro entry hentry
    obtain ⟨input, hinput⟩ := hdeflates entry hentry
    rw [hinput]
    rfl
  dsimp only
  rw [texts_append, texts_append, hnone, List.append_nil, Connection.texts, Connection.texts]
  cases hcall : call.text <;> simp [hcall]

theorem handleWebSocketTextMessage_told (hw : NeverCloses w) (message : Bytes)
    (hhandler : c.webSocketHandler.isSome = true) :
    Ends (handleWebSocketTextMessage w message) c (fun _ c' => Told [message] c c')
      fun _ _ => False := by
  obtain ⟨handler, hhandler⟩ := Option.isSome_iff_exists.mp hhandler
  rw [handleWebSocketTextMessage, ends_bind, ends_get, hhandler]
  exact callHandler_told (fun calls => (hw calls handler message).1) c

/-! ### The loop -/

/-- What is in the buffer is the beginning of a frame, or more than the whole frame. -/
theorem isPrefix_or_of_frame {more coming message rest : Bytes}
    (h : more ++ coming = message ++ 0xff :: rest) :
    more <+: message ∨ ∃ more', more = message ++ 0xff :: more' ∧ more' ++ coming = rest := by
  rcases List.append_eq_append_iff.mp h with ⟨gap, hmessage, -⟩ | ⟨gap, hmore, hrest⟩
  · exact Or.inl ⟨gap, hmessage.symm⟩
  · cases gap with
    | nil =>
        rw [List.append_nil] at hmore
        exact Or.inl (hmore ▸ List.prefix_rfl)
    | cons first gap =>
        rw [List.cons_append] at hrest
        injection hrest with hfirst hgap
        exact Or.inr ⟨gap, by rw [hmore, hfirst], hgap.symm⟩

/-- Closed at something that is not a frame, all messages before it delivered. -/
structure Stopped (messages : List Bytes) (tail : Bytes) (c c' : Connection) : Prop where
  wrong : tail ≠ []
  alive : c'.alive = c.alive
  closed : c'.closed = true
  texts : texts c'.calls = texts c.calls ++ messages

theorem Stopped.after {message : Bytes} {c₁ c' : Connection} (h : Stopped messages tail c₁ c')
    (htold : Told [message] c c₁) : Stopped (message :: messages) tail c c' where
  wrong := h.wrong
  alive := h.alive.trans htold.undisturbed.2.1
  closed := h.closed
  texts := by rw [h.texts, htold.texts, List.append_assoc, List.singleton_append]

/-- What is left of a stream is too short for a frame, unless it is the whole of it. -/
structure Unfinished (left coming : Bytes) (rest : List Bytes) (tail : Bytes) : Prop where
  stream : left ++ coming = hixieStream rest tail
  short : left.length ≤ maxWebsocketMessageSize
  complete : coming = [] → hixieStream rest tail = []

theorem unfinished_of_empty {buffer coming : Bytes} (hdrop : buffer = [])
    (hbuffered : buffer ++ coming = hixieStream messages tail) : Unfinished buffer coming messages tail where
  stream := hbuffered
  short := by
    rw [hdrop]
    exact Nat.zero_le _
  complete := by
    rw [← hbuffered, hdrop]
    exact id

/-- The buffer holds the beginning of a message, without its end. -/
theorem unfinished_of_prefix {message more coming : Bytes} (hstream : HixieStream (message :: messages) tail)
    (hpart : more <+: message) (hmore : more ++ coming = message ++ 0xff :: hixieStream messages tail) :
    Unfinished (0 :: more) coming (message :: messages) tail where
  stream := by
    rw [hixieStream_cons, List.cons_append, List.cons_append, hmore]
  short := by
    have hfits := hstream.fits message List.mem_cons_self
    have hlength := hpart.length_le
    rw [hixieFrame] at hfits
    simp only [List.cons_append, List.length_cons, List.length_append, List.length_nil] at hfits ⊢
    omega
  complete hcoming := by
    have hlength := hpart.length_le
    rw [hcoming, List.append_nil] at hmore
    rw [hmore, List.length_append, List.length_cons] at hlength
    omega

/-- At something that is not a frame, the loop closes the connection. -/
theorem hixieLoop_wrong {inBuf more : Bytes} {first : UInt8} (fuel : Nat) {messageStart : Nat}
    (hdrop : inBuf.drop messageStart = first :: more) (hfirst : first ≠ 0) (htail : tail ≠ []) :
    Ends (hixieLoop w inBuf (fuel + 1) messageStart) c
      (fun start c' => start = none ∧ Stopped [] tail c c') fun _ _ => False := by
  rw [hixieLoop, hdrop]
  dsimp only
  rw [if_pos hfirst, ends_bind, closeInternal, ends_liftOut]
  refine (Output.closeInternal_closes c.out).mono fun _ out hclosed => ?_
  exact ⟨rfl, htail, rfl, hclosed.2, (List.append_nil _).symm⟩

/-- A complete frame is handed to the handler, and the loop goes on behind it. -/
theorem hixieLoop_frame (hw : NeverCloses w) {inBuf message more : Bytes} {fuel messageStart : Nat}
    {post : Option Nat → Connection → Prop}
    (hdrop : inBuf.drop messageStart = 0 :: (message ++ 0xff :: more)) (hmarker : 0 ∉ message)
    (hend : 0xff ∉ message) (hhandler : c.webSocketHandler.isSome = true)
    (hnext : ∀ c₁, Told [message] c c₁ → inBuf.drop (messageStart + message.length + 2) = more →
      Ends (hixieLoop w inBuf fuel (messageStart + message.length + 2)) c₁ post fun _ _ => False) :
    Ends (hixieLoop w inBuf (fuel + 1) messageStart) c post fun _ _ => False := by
  have hbehind : inBuf.drop (messageStart + message.length + 2) = more := by
    rw [Nat.add_assoc, ← List.drop_drop, hdrop]
    simp
  rw [hixieLoop, hdrop]
  dsimp only
  rw [if_neg (fun h => h rfl), idxOf?_append_cons hend]
  dsimp only
  rw [record, ends_bind, ends_modify, List.take_left, cString_of_not_mem hmarker, ends_bind]
  have hrecorded : Told [] c { c with calls := c.calls ++
      [⟨.message (0 :: (message ++ 0xff :: more).take (message.length + 1)), c.out⟩] } :=
    told_record rfl
  refine (handleWebSocketTextMessage_told hw message ?_).mono (fun _ c₁ hhandled => ?_) fun _ _ => id
  · exact hhandler
  · exact hnext c₁ (hrecorded.trans hhandled) hbehind

/-- The loop takes all complete frames, and stops at anything that is not a frame. -/
theorem hixieLoop_ends (hw : NeverCloses w) (hstream : HixieStream messages tail) {inBuf coming : Bytes}
    {fuel messageStart : Nat} (hfuel : inBuf.length - messageStart < fuel)
    (hbuffered : inBuf.drop messageStart ++ coming = hixieStream messages tail)
    (hhandler : c.webSocketHandler.isSome = true) :
    Ends (hixieLoop w inBuf fuel messageStart) c (fun start c' =>
        match start with
        | none => Stopped messages tail c c'
        | some start => ∃ done rest, messages = done ++ rest ∧ Told done c c' ∧
            Unfinished (inBuf.drop start) coming rest tail)
      fun _ _ => False := by
  induction messages generalizing fuel messageStart c with
  | nil =>
      obtain ⟨fuel, rfl⟩ : ∃ before, fuel = before + 1 := ⟨fuel - 1, by omega⟩
      cases hdrop : inBuf.drop messageStart with
      | nil =>
          rw [hixieLoop, hdrop]
          exact ⟨[], [], rfl, Told.refl c, unfinished_of_empty hdrop hbuffered⟩
      | cons first more =>
          rw [hdrop, hixieStream_nil, List.cons_append] at hbuffered
          have hfirst : first ≠ 0 := hstream.wrong first (by rw [← hbuffered]; rfl)
          have htail : tail ≠ [] := hbuffered ▸ List.cons_ne_nil _ _
          refine (hixieLoop_wrong fuel hdrop hfirst htail).mono ?_ fun _ _ => id
          rintro - c' ⟨rfl, hstopped⟩
          exact hstopped
  | cons message messages ih =>
      obtain ⟨fuel, rfl⟩ : ∃ before, fuel = before + 1 := ⟨fuel - 1, by omega⟩
      cases hdrop : inBuf.drop messageStart with
      | nil =>
          rw [hixieLoop, hdrop]
          exact ⟨[], _, rfl, Told.refl c, unfinished_of_empty hdrop hbuffered⟩
      | cons first more =>
          rw [hdrop, hixieStream_cons, List.cons_append, List.cons_append] at hbuffered
          injection hbuffered with hfirst hmore
          subst hfirst
          have hend := hstream.noEnd message List.mem_cons_self
          rcases isPrefix_or_of_frame hmore with hpart | ⟨more', rfl, hmore'⟩
          · -- The end of the message has not arrived.
            have hnone : more.idxOf? 0xff = none := by
              rw [List.idxOf?_eq_none_iff]
              exact fun hmem => hend (hpart.subset hmem)
            rw [hixieLoop, hdrop]
            dsimp only
            rw [if_neg (fun h => h rfl), hnone]
            refine ⟨[], _, rfl, Told.refl c, ?_⟩
            rw [hdrop]
            exact unfinished_of_prefix hstream hpart hmore
          · refine hixieLoop_frame hw hdrop (hstream.noMarker message List.mem_cons_self) hend hhandler
              fun c₁ htold hnext => ?_
            have hlength : more'.length < inBuf.length - messageStart := by
              rw [← List.length_drop, hdrop]
              simp only [List.length_cons, List.length_append]
              omega
            have hfuel' : inBuf.length - (messageStart + message.length + 2) < fuel := by
              rw [← List.length_drop, hnext]
              omega
            have htail : HixieStream ([message] ++ messages) tail := hstream
            have hrest := ih htail.drop hfuel' (hnext.symm ▸ hmore')
              (htold.webSocketHandler ▸ hhandler)
            refine hrest.mono (fun start c' hpost => ?_) fun _ _ => id
            cases start with
            | none => exact Stopped.after hpost htold
            | some start =>
                obtain ⟨done, rest, rfl, hdone, hleft⟩ := hpost
                exact ⟨message :: done, rest, rfl, htold.trans hdone, hleft⟩

theorem exists_run_of_ends {α : Type} {m : ConnM α} {post : α → Connection → Prop}
    (h : Ends m c post fun _ _ => False) : ∃ a c', m.run c = .ok a c' ∧ post a c' := by
  unfold Ends at h
  cases hrun : m.run c with
  | ok a c' =>
      rw [hrun] at h
      exact ⟨a, c', rfl, h⟩
  | error e c' =>
      rw [hrun] at h
      exact h.elim

/-! ### Reads -/

/-- An open Hixie connection with a handler. -/
structure Hears (c : Connection) : Prop where
  state : c.state = .handlingHixieWebSocket
  alive : c.alive = true
  opened : c.closing = false
  handler : c.webSocketHandler.isSome = true

theorem Told.hears {told : List Bytes} {c' : Connection} (h : Told told c c') (hc : Hears c)
    (hquiet : Untroubled c') : Hears c' where
  state := h.undisturbed.1.trans hc.state
  alive := h.undisturbed.2.1.trans hc.alive
  opened := h.undisturbed.closing hc.opened hquiet
  handler := h.webSocketHandler ▸ hc.handler

/-- What has arrived has been delivered, up to a message whose end is still to come. -/
def Heard (messages : List Bytes) (tail coming : Bytes) (c c' : Connection) : Prop :=
  Stopped messages tail c c' ∨ ∃ done rest, messages = done ++ rest ∧
    (Untroubled c' → Hears c') ∧ texts c'.calls = texts c.calls ++ done ∧
    Unfinished c'.inBuf coming rest tail

theorem handleHixieWebSocket_ends (hw : NeverCloses w) (hstream : HixieStream messages tail)
    (hc : Hears c) {coming : Bytes} (hbuffered : c.inBuf ++ coming = hixieStream messages tail) :
    Ends (handleHixieWebSocket w) c (fun _ c' => Heard messages tail coming c c')
      fun _ _ => False := by
  rw [handleHixieWebSocket, ends_bind, ends_get]
  by_cases hempty : c.inBuf = []
  · rw [if_neg (by simp [hempty])]
    refine Or.inr ⟨[], messages, rfl, fun _ => hc, (List.append_nil _).symm, hbuffered, ?_, ?_⟩
    · rw [hempty]
      exact Nat.zero_le _
    · intro hcoming
      rw [← hbuffered, hempty, hcoming]
      rfl
  · rw [if_pos hempty, ends_bind]
    have hfuel : c.inBuf.length - 0 < c.inBuf.length + 1 := Nat.lt_succ_self _
    refine (hixieLoop_ends hw hstream hfuel hbuffered hc.handler).mono (fun start c₁ hpost => ?_)
      fun _ _ => id
    cases start with
    | none => exact Or.inl hpost
    | some start =>
        obtain ⟨done, rest, hsplit, htold, hleft⟩ := hpost
        rw [← htold.inBuf] at hleft
        have hfits : ¬ maxWebsocketMessageSize < (c₁.inBuf.drop start).length :=
          Nat.not_lt_of_le hleft.short
        rw [ends_bind, ends_modify, closeIfTooLong, ends_bind, ends_get, if_neg hfits]
        have hhears : Untroubled c₁ → Hears c₁ := htold.hears hc
        refine Or.inr ⟨done, rest, hsplit, fun hquiet => ?_, htold.texts, hleft⟩
        exact ⟨(hhears hquiet).state, (hhears hquiet).alive, (hhears hquiet).opened,
          (hhears hquiet).handler⟩

theorem handleNewDataFrom_of_hixie {fuel : Nat} (hstate : c.state = .handlingHixieWebSocket) :
    (handleNewDataFrom w (fuel + 1)).run c = (handleHixieWebSocket w).run c := by
  rw [handleNewDataFrom, EStateM.run_bind]
  dsimp only [EStateM.run_get]
  rw [hstate]

theorem step_data_of_hixie (hc : Hears c) (received : Piece) :
    (step w (.readable (.data received))).run c = (handleHixieWebSocket w).run
      (withInput (c.bytesReceived + received.val.length) (c.inBuf ++ received.val) c) := by
  rw [step_data_run hc.alive (closed_of_closing hc.opened), handleNewData, EStateM.run_bind]
  dsimp only [EStateM.run_get]
  exact handleNewDataFrom_of_hixie hc.state

/-- All messages have been delivered, and the connection is closed if something else follows them. -/
def AllDelivered (messages : List Bytes) (tail : Bytes) (c c' : Connection) : Prop :=
  texts c'.calls = texts c.calls ++ messages ∧ (c'.closed = true ↔ tail ≠ [])

/-- Once nothing is waiting in the buffer for another read, everything is delivered by the last one. -/
theorem run_hixie (hw : NeverCloses w) {pieces : List Piece} (hstream : HixieStream messages tail)
    (hc : Hears c) (hcut : c.inBuf ++ (pieces.map Subtype.val).flatten = hixieStream messages tail)
    (hquiet : UntroubledRun w (reads pieces) c)
    (hmore : pieces = [] → hixieStream messages tail = []) :
    ∃ c', run w (reads pieces) c = .ok c' ∧ AllDelivered messages tail c c' := by
  induction pieces generalizing c messages with
  | nil =>
      obtain ⟨rfl, rfl⟩ := hixieStream_eq_nil_iff.mp (hmore rfl)
      refine ⟨c, rfl, (List.append_nil _).symm, ?_⟩
      rw [closed_of_closing hc.opened]
      simp
  | cons piece pieces ih =>
      rw [List.map_cons, List.flatten_cons, ← List.append_assoc] at hcut
      have hstep := step_data_of_hixie (w := w) hc piece
      have hreceived : Hears
          (withInput (c.bytesReceived + piece.val.length) (c.inBuf ++ piece.val) c) :=
        ⟨hc.state, hc.alive, hc.opened, hc.handler⟩
      have hends := handleHixieWebSocket_ends hw hstream hreceived hcut
      obtain ⟨⟨⟩, c₁, hrun, hheard⟩ := exists_run_of_ends hends
      rw [hrun] at hstep
      rcases hheard with hstopped | ⟨done, rest, rfl, hhears, htexts, hleft⟩
      · refine ⟨c₁, (run_cons_ok hstep).trans ?_, hstopped.texts, ?_⟩
        · exact run_reads_of_closed pieces (hstopped.alive.trans hc.alive) hstopped.closed
        · exact ⟨fun _ => hstopped.wrong, fun _ => hstopped.closed⟩
      · obtain ⟨c', hrun', htexts', hclosed⟩ := ih hstream.drop (hhears (hquiet.step hstep))
          hleft.stream (hquiet.tail hstep) fun hnone => hleft.complete (by rw [hnone]; rfl)
        refine ⟨c', (run_cons_ok hstep).trans hrun', ?_, hclosed⟩
        have hfirst : texts c₁.calls = texts c.calls ++ done := htexts
        rw [htexts', hfirst, List.append_assoc]

/-! ### The key -/

/-- No WebSocket handler closes the connection when it is told of it. -/
def NeverClosesAtOnce (w : World) : Prop := ∀ calls handler, .close ∉ w.onConnect calls handler

/-- An open connection that waits for the last part of its handshake. -/
structure AwaitsKey (c : Connection) : Prop where
  state : c.state = .readingWebSocketKey3
  alive : c.alive = true
  opened : c.closing = false
  request : c.request.isSome = true
  handler : c.webSocketHandler.isSome = true

theorem liftOut_told {α : Type} {m : OutM α} (h : Runs (Output.BufferStep w) m) (c : Connection) :
    Ends (liftOut m) c (fun _ c' => Told [] c c') fun _ _ => False := by
  rw [ends_liftOut]
  refine (h c.out).mono fun _ out hout => ⟨?_, rfl, rfl, (List.append_nil _).symm⟩
  exact ⟨rfl, rfl, Output.quiet_of_bufferSteps hout⟩

theorem Undisturbed.untroubled {c' : Connection} (h : Undisturbed c c') (hquiet : Untroubled c') :
    Untroubled c := by
  obtain ⟨events, hlog, -⟩ := h.2.2
  refine fun event hevent => hquiet event ?_
  rw [hlog]
  exact List.mem_append_left _ hevent

/-- The key makes a Hixie connection; what follows it stays in the buffer. -/
theorem handleWebSocketKey3_ends (hconnect : NeverClosesAtOnce w) (hc : AwaitsKey c)
    (hlength : 8 ≤ c.inBuf.length) :
    Ends (handleWebSocketKey3 w) c (fun _ c' => (Untroubled c' → Hears c') ∧
        c'.inBuf = c.inBuf.drop 8 ∧ texts c'.calls = texts c.calls)
      fun _ _ => False := by
  obtain ⟨request, hrequest⟩ := Option.isSome_iff_exists.mp hc.request
  obtain ⟨handler, hhandler⟩ := Option.isSome_iff_exists.mp hc.handler
  rw [handleWebSocketKey3, ends_bind, ends_get, if_pos hlength, theRequest, bind_assoc, ends_bind,
    ends_get, hrequest]
  dsimp only
  rw [pure_bind, record, ends_bind, ends_modify, ends_bind]
  refine (liftOut_told (Output.hixieHandshake_runs _ _ _) _).mono (fun _ c₁ h₁ => ?_) fun _ _ => id
  have hanswered : Told [] c c₁ := (told_record rfl).trans h₁
  rw [startHixie, ends_bind, ends_modify, ends_bind, ends_get]
  dsimp only
  rw [hanswered.webSocketHandler, hhandler]
  refine (callHandler_told (fun calls => hconnect calls handler) _).mono (fun _ c₂ h₂ => ?_)
    fun _ _ => id
  have hconnected : Undisturbed
      { c₁ with state := .handlingHixieWebSocket, inBuf := c₁.inBuf.drop 8 } c₂ := h₂.undisturbed
  refine ⟨fun hquiet => h₂.hears ⟨rfl, ?_, ?_, ?_⟩ hquiet, ?_, ?_⟩
  · exact hanswered.undisturbed.2.1.trans hc.alive
  · exact hanswered.undisturbed.closing hc.opened (hconnected.untroubled hquiet)
  · exact rfl
  · rw [h₂.inBuf, hanswered.inBuf]
  · have htexts : texts c₂.calls = texts c₁.calls ++ [] := h₂.texts
    rw [htexts, hanswered.texts, List.append_nil, List.append_nil]

theorem handleNewData_of_key (hc : AwaitsKey c) :
    (handleNewData w).run c = (handleWebSocketKey3 w).run c := by
  rw [handleNewData, EStateM.run_bind]
  dsimp only [EStateM.run_get]
  rw [handleNewDataFrom, EStateM.run_bind]
  dsimp only [EStateM.run_get]
  rw [hc.state]

theorem handleNewData_of_short (hc : AwaitsKey c) (hshort : c.inBuf.length < 8) :
    (handleNewData w).run c = .ok () c := by
  rw [handleNewData_of_key hc, handleWebSocketKey3, EStateM.run_bind]
  dsimp only [EStateM.run_get]
  rw [if_neg (Nat.not_le_of_lt hshort)]
  rfl

/-- The key is complete before the last read. -/
def KeyBeforeLast (early : Bytes) (pieces : List Piece) : Prop :=
  8 ≤ (early :: pieces.map Subtype.val).dropLast.flatten.length

theorem keyBeforeLast_nil (early : Bytes) : ¬ KeyBeforeLast early [] := by simp [KeyBeforeLast]

theorem keyBeforeLast_singleton (early : Bytes) (piece : Piece) :
    KeyBeforeLast early [piece] ↔ 8 ≤ early.length := by simp [KeyBeforeLast]

theorem keyBeforeLast_cons (early : Bytes) (piece next : Piece) (pieces : List Piece) :
    KeyBeforeLast early (piece :: next :: pieces) ↔
      KeyBeforeLast (early ++ piece.val) (next :: pieces) := by
  simp [KeyBeforeLast]

theorem keyBeforeLast_of_length {early : Bytes} (h : 8 ≤ early.length) (piece : Piece)
    (pieces : List Piece) : KeyBeforeLast early (piece :: pieces) := by
  rw [KeyBeforeLast, List.map_cons, List.dropLast_cons_cons, List.flatten_cons, List.length_append]
  omega

theorem stream_behind_key {early coming key stream : Bytes} (hkey : key.length = 8)
    (hfull : 8 ≤ early.length) (hcut : early ++ coming = key ++ stream) :
    early.drop 8 ++ coming = stream := by
  have hdrop := congrArg (List.drop 8) hcut
  rwa [List.drop_append_of_le_length hfull, ← hkey, List.drop_left, hkey] at hdrop

/-- With the key complete, messages that have come with it wait for another read. -/
theorem run_started (hw : NeverCloses w) {pieces : List Piece} {early : Bytes} {c₀ : Connection}
    (hstream : HixieStream messages tail) (hlength : 8 ≤ early.length) (hc : Hears c)
    (hcut : c.inBuf ++ (pieces.map Subtype.val).flatten = hixieStream messages tail)
    (htexts : texts c.calls = texts c₀.calls) (hquiet : UntroubledRun w (reads pieces) c) :
    ∃ c', run w (reads pieces) c = .ok c' ∧ (AllDelivered messages tail c₀ c' ↔
      hixieStream messages tail = [] ∨ KeyBeforeLast early pieces) := by
  cases pieces with
  | nil =>
      refine ⟨c, rfl, ?_⟩
      rw [hixieStream_eq_nil_iff, or_iff_left (keyBeforeLast_nil early), AllDelivered, htexts,
        closed_of_closing hc.opened]
      simp
  | cons piece pieces =>
      obtain ⟨c', hrun, hdelivered⟩ := run_hixie hw hstream hc hcut hquiet nofun
      refine ⟨c', hrun, ?_⟩
      rw [AllDelivered, ← htexts]
      exact iff_of_true hdelivered (Or.inr (keyBeforeLast_of_length hlength piece pieces))

/-- The reads up to the one that completes the key, and those behind it. -/
theorem run_key (hw : NeverCloses w) (hconnect : NeverClosesAtOnce w) {pieces : List Piece}
    {key : Bytes} (hstream : HixieStream messages tail) (hkey : key.length = 8) (hc : AwaitsKey c)
    (hshort : c.inBuf.length < 8)
    (hcut : c.inBuf ++ (pieces.map Subtype.val).flatten = key ++ hixieStream messages tail)
    (hquiet : UntroubledRun w (reads pieces) c) :
    ∃ c', run w (reads pieces) c = .ok c' ∧ (AllDelivered messages tail c c' ↔
      hixieStream messages tail = [] ∨ KeyBeforeLast c.inBuf pieces) := by
  induction pieces generalizing c with
  | nil =>
      have hlength := congrArg List.length hcut
      simp only [List.map_nil, List.flatten_nil, List.length_append, List.length_nil] at hlength
      omega
  | cons piece pieces ih =>
      rw [List.map_cons, List.flatten_cons, ← List.append_assoc] at hcut
      have hreceived : AwaitsKey
          (withInput (c.bytesReceived + piece.val.length) (c.inBuf ++ piece.val) c) :=
        ⟨hc.state, hc.alive, hc.opened, hc.request, hc.handler⟩
      have hstep := step_data_run (w := w) hc.alive (closed_of_closing hc.opened) piece
      by_cases hfull : 8 ≤ (c.inBuf ++ piece.val).length
      · have hends := handleWebSocketKey3_ends hconnect hreceived hfull
        obtain ⟨⟨⟩, c₁, hrun, hhears, hinBuf, htexts⟩ := exists_run_of_ends hends
        rw [handleNewData_of_key hreceived, hrun] at hstep
        have hrest : c₁.inBuf ++ (pieces.map Subtype.val).flatten = hixieStream messages tail :=
          hinBuf ▸ stream_behind_key hkey hfull hcut
        obtain ⟨c', hrun', hiff⟩ := run_started hw hstream hfull (hhears (hquiet.step hstep)) hrest
          htexts (hquiet.tail hstep)
        refine ⟨c', (run_cons_ok hstep).trans hrun', ?_⟩
        have hiff' : AllDelivered messages tail c c' ↔
            hixieStream messages tail = [] ∨ KeyBeforeLast (c.inBuf ++ piece.val) pieces := hiff
        cases pieces with
        | nil =>
            rw [hiff', keyBeforeLast_singleton]
            exact or_congr_right (iff_of_false (keyBeforeLast_nil _) (Nat.not_le_of_lt hshort))
        | cons next pieces => rw [hiff', keyBeforeLast_cons]
      · have hpart := Nat.lt_of_not_le hfull
        rw [handleNewData_of_short hreceived hpart] at hstep
        obtain ⟨c', hrun', hiff⟩ := ih hreceived hpart hcut (hquiet.tail hstep)
        refine ⟨c', (run_cons_ok hstep).trans hrun', ?_⟩
        have hiff' : AllDelivered messages tail c c' ↔
            hixieStream messages tail = [] ∨ KeyBeforeLast (c.inBuf ++ piece.val) pieces := hiff
        cases pieces with
        | nil =>
            have hlength := congrArg List.length hcut
            simp only [List.map_nil, List.flatten_nil, List.append_nil, List.length_append] at hlength
            rw [List.length_append] at hpart
            omega
        | cons next pieces => rw [hiff', keyBeforeLast_cons]

/-- **Messages behind the key.** However the key and the framed messages behind it are cut into reads,
the last read has delivered all messages, and closed the connection if something else follows them,
exactly if there is nothing behind the key or it is complete before the last read. -/
theorem allDelivered_iff (hw : NeverCloses w) (hconnect : NeverClosesAtOnce w) {pieces : List Piece}
    {key : Bytes} (hstream : HixieStream messages tail) (hkey : key.length = 8) (hc : AwaitsKey c)
    (hcut : c.inBuf ++ (pieces.map Subtype.val).flatten = key ++ hixieStream messages tail) :
    ∃ c₁, (handleNewData w).run c = .ok () c₁ ∧ (UntroubledRun w (reads pieces) c₁ →
      ∃ c', run w (reads pieces) c₁ = .ok c' ∧ (AllDelivered messages tail c c' ↔
        hixieStream messages tail = [] ∨ KeyBeforeLast c.inBuf pieces)) := by
  by_cases hfull : 8 ≤ c.inBuf.length
  · have hends := handleWebSocketKey3_ends hconnect hc hfull
    obtain ⟨⟨⟩, c₁, hrun, hhears, hinBuf, htexts⟩ := exists_run_of_ends hends
    refine ⟨c₁, (handleNewData_of_key hc).trans hrun, fun hquiet => ?_⟩
    have hrest : c₁.inBuf ++ (pieces.map Subtype.val).flatten = hixieStream messages tail :=
      hinBuf ▸ stream_behind_key hkey hfull hcut
    exact run_started hw hstream hfull (hhears (hquiet [] List.nil_prefix c₁ rfl)) hrest htexts hquiet
  · have hshort := Nat.lt_of_not_le hfull
    refine ⟨c, handleNewData_of_short hc hshort, fun hquiet => ?_⟩
    exact run_key hw hconnect hstream hkey hc hshort hcut hquiet

/-- A handshake that leads to the state in which the key is awaited. -/
def keyRequest : Piece :=
  ⟨ascii ("GET /chat HTTP/1.1\r\nConnection: Upgrade\r\nUpgrade: websocket\r\n"
    ++ "Sec-WebSocket-Version: 0\r\n\r\n"), by decide +kernel⟩

def greeting : Bytes := ascii "hi"

/-- The key and a message, both cut in two. -/
def cutGreeting : List Piece :=
  [⟨ascii "12345", by decide⟩, ⟨ascii "678" ++ [0, 104], by decide⟩, ⟨[105, 0xff], by decide⟩]

/-- The key and a message in one read. -/
def oneGreeting : List Piece := [⟨ascii "12345678" ++ hixieFrame greeting, by decide⟩]

theorem hixieStream_greeting : HixieStream [greeting] [] where
  noMarker := by decide
  noEnd := by decide
  fits := by decide
  wrong := nofun

theorem neverClosesAtOnce_chat : NeverClosesAtOnce World.chat := by
  intro calls handler
  simp [World.chat, World.plain]

/-- What a concrete handshake is followed by, evaluated. -/
theorem exists_awaitsKey (pieces : List Piece) (delivered : List Bytes)
    (h : (do
      let c ← run World.chat [.readable (.data keyRequest)] fresh
      let c' ← run World.chat (reads pieces) c
      return decide ((c.state = .readingWebSocketKey3 ∧ c.alive = true ∧ c.closing = false ∧
        c.request.isSome = true ∧ c.webSocketHandler.isSome = true) ∧ c.inBuf = [] ∧
        UntroubledRun World.chat (reads pieces) c ∧ texts c.calls = [] ∧ texts c'.calls = delivered))
      = (.ok true : Except Fault Bool)) :
    ∃ c c', run World.chat [.readable (.data keyRequest)] fresh = .ok c ∧ AwaitsKey c ∧ c.inBuf = [] ∧
      UntroubledRun World.chat (reads pieces) c ∧ run World.chat (reads pieces) c = .ok c' ∧
      texts c.calls = [] ∧ texts c'.calls = delivered := by
  obtain ⟨c, hrun, h⟩ := ok_of_bind_eq_ok h
  obtain ⟨c', hrun', h⟩ := ok_of_bind_eq_ok h
  injection h with h
  obtain ⟨⟨hstate, halive, hopen, hrequest, hhandler⟩, hinBuf, hquiet, htexts, htexts'⟩ :=
    of_decide_eq_true h
  exact ⟨c, c', hrun, ⟨hstate, halive, hopen, hrequest, hhandler⟩, hinBuf, hquiet, hrun', htexts,
    htexts'⟩

theorem allDelivered_cutGreeting :
    ∃ c c', run World.chat [.readable (.data keyRequest)] fresh = .ok c ∧
      run World.chat (reads cutGreeting) c = .ok c' ∧ AllDelivered [greeting] [] c c' := by
  obtain ⟨c, -, hrun, hc, hinBuf, hquiet, -⟩ :=
    exists_awaitsKey cutGreeting [greeting] (by decide +kernel)
  have hcut : c.inBuf ++ (cutGreeting.map Subtype.val).flatten =
      ascii "12345678" ++ hixieStream [greeting] [] := by
    rw [hinBuf]
    decide
  obtain ⟨c₁, hrun₁, hdelivered⟩ :=
    allDelivered_iff neverCloses_chat neverClosesAtOnce_chat hixieStream_greeting rfl hc hcut
  rw [handleNewData_of_short hc (by rw [hinBuf]; decide)] at hrun₁
  injection hrun₁ with _ hc₁
  subst hc₁
  obtain ⟨c', hrun', hiff⟩ := hdelivered hquiet
  refine ⟨c, c', hrun, hrun', hiff.mpr (Or.inr ?_)⟩
  rw [KeyBeforeLast, hinBuf]
  decide

/-- A message in the read that completes the key, and nothing behind it. -/
theorem not_allDelivered_oneGreeting :
    ∃ c c', run World.chat [.readable (.data keyRequest)] fresh = .ok c ∧ AwaitsKey c ∧
      c.inBuf = [] ∧ NeverCloses World.chat ∧ NeverClosesAtOnce World.chat ∧
      HixieStream [greeting] [] ∧
      (oneGreeting.map Subtype.val).flatten = ascii "12345678" ++ hixieStream [greeting] [] ∧
      UntroubledRun World.chat (reads oneGreeting) c ∧
      run World.chat (reads oneGreeting) c = .ok c' ∧ ¬ AllDelivered [greeting] [] c c' := by
  obtain ⟨c, c', hrun, hc, hinBuf, hquiet, hrun', htexts, htexts'⟩ :=
    exists_awaitsKey oneGreeting [] (by decide +kernel)
  refine ⟨c, c', hrun, hc, hinBuf, neverCloses_chat, neverClosesAtOnce_chat, hixieStream_greeting,
    by decide, hquiet, hrun', fun hdelivered => ?_⟩
  have hall := hdelivered.1
  rw [htexts, htexts'] at hall
  cases hall

end Connection

end Seasocks
