import Seasocks.Proof.Decoder
import Seasocks.Proof.WriterProtocol

/-!
# Frames there and back

The decoder reads what `sendHybi` writes, and what a client writes with any masking key and any length
encoding, wherever in the buffer a frame stands.
-/

namespace Seasocks

open Program WebSocketFrame

variable {w : World} {o : Output} {c : Connection}

/-! ### What the server sends -/

namespace Output

theorem networkBytes_eq (value count : Nat) : networkBytes value count = toBigEndian value count := by
  induction count with
  | zero => rfl
  | succ count ih => rw [networkBytes, toBigEndian, ih]

/-- The length encoding `sendHybiData` chooses. -/
def hybiForm (length : Nat) : LengthForm :=
  if length < 126 then .short else if length < 65536 then .medium else .long

theorem hybiForm_holds {length : Nat} (h : length < 2 ^ 64) : (hybiForm length).Holds length := by
  unfold hybiForm
  split_ifs with hshort hmedium
  · exact hshort
  · exact hmedium
  · exact h

theorem secondByte_false (code : Nat) : secondByte code false = UInt8.ofNat code := UInt8.or_zero

theorem writeHybiLength_emits (messageLength : Nat) :
    After (writeHybiLength w messageLength) o fun done o' =>
      Emits (secondByte ((hybiForm messageLength).code messageLength) false ::
          toBigEndian messageLength (hybiForm messageLength).size) o o' ∧
        Buffered o o' ∧ (done = false → Fails o o') := by
  have long : ∀ (first : UInt8) (rest : Bytes), rest ≠ [] →
      After (do if ← write w [first] false then write w rest false else return false) o
        fun done o' => Emits (first :: rest) o o' ∧ Buffered o o' ∧ (done = false → Fails o o') := by
    intro first rest hrest
    refine (write_false_emits [first]).bind fun done o₁ h₁ => ?_
    rw [after_ite]
    constructor
    · intro _
      refine (write_false_bufferedEmits rest hrest).mono fun done o₂ h₂ => ?_
      exact ⟨h₁.1.trans h₂.1, h₂.2.1.imp_left h₁.1.fails, fun hfailed => h₁.1.fails (h₂.2.2 hfailed)⟩
    · intro hrefused
      have hfails := h₁.2 (by simpa using hrefused)
      exact ⟨hfails.emits _, Or.inl hfails, fun _ => hfails⟩
  rw [writeHybiLength, hybiForm, secondByte_false, after_ite, after_ite]
  refine ⟨fun hshort => ?_, fun hlong => ⟨fun hmedium => ?_, fun hhuge => ?_⟩⟩
  · rw [if_pos hshort]
    exact write_false_bufferedEmits _ (List.cons_ne_nil _ _)
  · rw [if_neg hlong, if_pos hmedium, networkBytes_eq]
    exact long 126 _ (List.cons_ne_nil _ _)
  · rw [if_neg hlong, if_neg hhuge, networkBytes_eq]
    exact long 127 _ (List.cons_ne_nil _ _)

theorem Begins.writeHybiLength {bytes : Bytes} {o' : Output} (h : Begins bytes o o') (messageLength : Nat) :
    After (writeHybiLength w messageLength) o' fun done o'' =>
      Begins (bytes ++ secondByte ((hybiForm messageLength).code messageLength) false ::
          toBigEndian messageLength (hybiForm messageLength).size) o o'' ∧
        (done = false → o''.closing = true) := by
  have long : ∀ (first : UInt8) (rest : Bytes),
      After (do if ← Output.write w [first] false then Output.write w rest false else return false) o'
        fun done o'' => Begins (bytes ++ first :: rest) o o'' ∧ (done = false → o''.closing = true) := by
    intro first rest
    have hsplit : bytes ++ first :: rest = bytes ++ [first] ++ rest := by simp
    rw [hsplit]
    refine (h.write [first] false fun hflush => by cases hflush).bind fun done o₁ h₁ => ?_
    rw [after_ite]
    refine ⟨fun _ => ?_, fun hrefused => ?_⟩
    · exact (h₁.1.write rest false fun hflush => by cases hflush).mono fun _ _ h₂ => ⟨h₂.1, h₂.2 rfl⟩
    · have hclosing := h₁.2 rfl (by simpa using hrefused)
      exact ⟨h₁.1.of_closing hclosing rest, fun _ => hclosing⟩
  rw [Output.writeHybiLength, hybiForm, secondByte_false, after_ite, after_ite]
  refine ⟨fun hshort => ?_, fun hlong => ⟨fun hmedium => ?_, fun hhuge => ?_⟩⟩
  · rw [if_pos hshort]
    exact (h.write _ false fun hflush => by cases hflush).mono fun _ _ h₁ => ⟨h₁.1, h₁.2 rfl⟩
  · rw [if_neg hlong, if_pos hmedium, networkBytes_eq]
    exact long 126 _
  · rw [if_neg hlong, if_neg hhuge, networkBytes_eq]
    exact long 127 _

theorem writeHybiLength_full (messageLength : Nat) :
    After (writeHybiLength w messageLength) o fun done o' => done = true → o'.outBuf ≠ [] := by
  have long : ∀ (first : UInt8) (rest : Bytes), rest ≠ [] →
      After (do if ← write w [first] false then write w rest false else return false) o
        fun done o' => done = true → o'.outBuf ≠ [] := by
    intro first rest hrest
    rw [after_bind]
    refine After.of_forall fun done o₁ => ?_
    rw [after_ite]
    exact ⟨fun _ => write_false_buffered rest hrest, fun _ hdone => by cases hdone⟩
  rw [writeHybiLength, after_ite, after_ite]
  refine ⟨fun _ => ?_, fun _ => ⟨fun _ => ?_, fun _ => ?_⟩⟩
  · exact write_false_buffered _ (List.cons_ne_nil _ _)
  · exact long 126 _ (List.cons_ne_nil _ _)
  · exact long 127 _ (List.cons_ne_nil _ _)

end Output

namespace Connection

/-- Without compression `sendHybi` writes one unmasked frame. -/
theorem sendHybi_emits (opcode : HybiPacketDecoder.Opcode) (message : Bytes)
    (hdeflate : c.perMessageDeflate = false) :
    Ends (sendHybi w opcode message) c
      (fun _ c' => Output.Emits
        (encode opcode.toByte (Output.hybiForm message.length) none message) c.out c'.out)
      fun _ _ => False := by
  have hfirst : (0x80 : UInt8) ||| opcode.toByte ||| 0 = 0x80 ||| opcode.toByte := UInt8.or_zero
  rw [sendHybi, ends_bind, ends_get]
  dsimp only
  rw [hdeflate, if_neg Bool.false_ne_true, hfirst, ends_bind, ends_liftOut]
  refine (Output.write_false_emits [0x80 ||| opcode.toByte]).mono fun done out h₁ => ?_
  rw [ends_ite]
  constructor
  · intro _
    rw [if_neg Bool.false_ne_true, ends_liftOut, Output.sendHybiData]
    refine (Output.writeHybiLength_emits message.length).bind fun done out₂ h₂ => ?_
    have hheader := h₁.1.trans h₂.1
    rw [after_ite]
    constructor
    · intro _
      rw [after_bind]
      refine (Output.write_emits_of_buffered message true hheader ?_).mono fun _ out₃ h₃ => ?_
      · exact h₂.2.1.imp_left h₁.1.fails
      · rw [after_pure, encode, maskPayload, Option.getD_none, List.append_nil]
        exact h₃
    · intro hrefused
      exact (h₁.1.fails (h₂.2.2 (by simpa using hrefused))).emits _
  · intro hrefused
    exact (h₁.2 (by simpa using hrefused)).emits _

/-- Where it fails, a beginning of the frame is written and the connection closes. -/
theorem sendHybi_begins (opcode : HybiPacketDecoder.Opcode) (message : Bytes)
    (hdeflate : c.perMessageDeflate = false) :
    Ends (sendHybi w opcode message) c
      (fun _ c' => Output.Begins
        (encode opcode.toByte (Output.hybiForm message.length) none message) c.out c'.out)
      fun _ _ => False := by
  have hfirst : (0x80 : UInt8) ||| opcode.toByte ||| 0 = 0x80 ||| opcode.toByte := UInt8.or_zero
  have hframe : encode opcode.toByte (Output.hybiForm message.length) none message =
      [0x80 ||| opcode.toByte] ++ secondByte ((Output.hybiForm message.length).code message.length) false ::
        toBigEndian message.length (Output.hybiForm message.length).size ++ message := by
    rw [encode, maskPayload]
    simp
  rw [sendHybi, ends_bind, ends_get]
  dsimp only
  rw [hdeflate, if_neg Bool.false_ne_true, hfirst, hframe, ends_bind, ends_liftOut]
  have hnothing : Output.Begins [] c.out c.out := Output.begins_nil rfl
  refine (hnothing.write [0x80 ||| opcode.toByte] false fun hflush => by cases hflush).mono
    fun done out h₁ => ?_
  rw [ends_ite]
  constructor
  · intro _
    rw [if_neg Bool.false_ne_true, ends_liftOut, Output.sendHybiData]
    refine ((h₁.1.writeHybiLength message.length).and
      (Output.writeHybiLength_full message.length)).bind fun done out₂ h₂ => ?_
    rw [after_ite]
    constructor
    · intro hdone
      rw [after_bind]
      exact (h₂.1.1.write message true fun _ => h₂.2 hdone).mono fun _ out₃ h₃ => h₃.1
    · intro hrefused
      exact h₂.1.1.of_closing (h₂.1.2 (by simpa using hrefused)) message
  · intro hrefused
    have hclosing := h₁.2 rfl (by simpa using hrefused)
    rw [List.append_assoc]
    exact h₁.1.of_closing hclosing _

end Connection

/-! ### Messages -/

namespace HybiPacketDecoder

structure Message where
  opcode : Opcode
  payload : Bytes
deriving DecidableEq, Repr

/-- What the decoder calls a message of this kind. -/
def Opcode.messageState : Opcode → MessageState
  | .text => .textMessage
  | .binary => .binaryMessage
  | .ping => .ping
  | .pong => .pong
  | .close => .close
  | .cont => .error

/-- `sendHybi` has emitted these bytes for the message, on an open connection without compression. -/
def Sent (message : Message) (bytes : Bytes) : Prop :=
  ∃ (w : World) (c c' : Connection), c.perMessageDeflate = false ∧ c.closing = false ∧
    c.out.hadSendError = false ∧
    (Connection.sendHybi w message.opcode message.payload).run c = .ok () c' ∧
    Connection.NoFailure c c' ∧ Output.emitted c'.out = Output.emitted c.out ++ bytes

/-- A client may send the message so. -/
def FromClient (message : Message) (bytes : Bytes) : Prop :=
  ∃ (form : LengthForm) (key : Bytes), form.Holds message.payload.length ∧ key.length = 4 ∧
    bytes = encode message.opcode.toByte form (some key) message.payload

def IsFrameOf (message : Message) (bytes : Bytes) : Prop :=
  Sent message bytes ∨ FromClient message bytes

theorem Opcode.toByte_lt (opcode : Opcode) : opcode.toByte.toNat < 16 := by
  cases opcode <;> decide

theorem messageStateOf_toByte (opcode : Opcode) :
    messageStateOf opcode.toByte = opcode.messageState := by
  cases opcode <;> rfl

theorem Sent.eq_encode {message : Message} {bytes : Bytes} (h : Sent message bytes) :
    bytes = encode message.opcode.toByte (Output.hybiForm message.payload.length) none
      message.payload := by
  obtain ⟨w, c, c', hdeflate, hopen, hnoError, hrun, hquiet, hbytes⟩ := h
  have hemits := Connection.sendHybi_emits (w := w) message.opcode message.payload hdeflate
  rw [ends_of_run_ok hrun] at hemits
  obtain ⟨events, hlog, hemitted⟩ := hemits
  have hsame := (hemitted hopen hnoError ((Connection.noFailure_of_log hlog).mp hquiet)).2.2
  rw [hbytes] at hsame
  exact List.append_cancel_left hsame

/-- Either way the frame is an encoding of the message. -/
theorem IsFrameOf.exists_encode {message : Message} {bytes : Bytes} (h : IsFrameOf message bytes)
    (hlength : message.payload.length < 2 ^ 32) :
    ∃ (form : LengthForm) (key : Option Bytes), form.Holds message.payload.length ∧
      (∀ bytes ∈ key, bytes.length = 4) ∧
      bytes = encode message.opcode.toByte form key message.payload := by
  rcases h with hsent | ⟨form, key, hform, hkey, hbytes⟩
  · refine ⟨_, none, Output.hybiForm_holds (hlength.trans (by decide)), ?_, hsent.eq_encode⟩
    rintro bytes ⟨⟩
  · refine ⟨form, some key, hform, ?_, hbytes⟩
    rintro bytes ⟨⟩
    exact hkey

/-! ### Decoding them -/

/-- The results of as many calls of one decoder, each with what the last one left behind. -/
def decodeCalls (buffer : Bytes) : Nat → Nat → Bytes → Bool → Except Fault (List Decoded)
  | 0, _, _, _ => .ok []
  | count + 1, messageStart, messageOut, deflateNeeded => do
      let decoded ← decodeNextMessage buffer messageStart messageOut deflateNeeded
      let rest ← decodeCalls buffer count decoded.messageStart decoded.messageOut
        decoded.deflateNeeded
      return decoded :: rest

/-- What a call finds at the beginning of a frame. -/
theorem decodeNextMessage_encode (messageOut : Bytes) (deflateNeeded : Bool) {message : Message}
    {bytes : Bytes} (h : IsFrameOf message bytes) (hlength : message.payload.length < 2 ^ 32)
    (before after : Bytes) :
    decodeNextMessage (before ++ (bytes ++ after)) before.length messageOut deflateNeeded =
      .ok ⟨message.opcode.messageState, message.payload, false, before.length + bytes.length⟩ := by
  obtain ⟨form, key, hform, hkey, rfl⟩ := h.exists_encode hlength
  have hscan := scan_encode message.opcode.toByte_lt hform hkey after
  have hdrop : (before ++ (encode message.opcode.toByte form key message.payload ++ after)).drop
      before.length = encode message.opcode.toByte form key message.payload ++ after :=
    List.drop_left
  rw [← hdrop] at hscan
  rw [← messageStateOf_toByte]
  exact decodeNextMessage_frame messageOut deflateNeeded hscan hlength

theorem decodeCalls_frames {messages : List Message} {frames : List Bytes}
    (h : List.Forall₂ IsFrameOf messages frames)
    (hlength : ∀ message ∈ messages, message.payload.length < 2 ^ 32) (before : Bytes)
    (messageOut : Bytes) (deflateNeeded : Bool) :
    ∃ results last,
      decodeCalls (before ++ frames.flatten) (messages.length + 1) before.length messageOut
        deflateNeeded = .ok (results ++ [last]) ∧
      results.map (fun decoded => (decoded.messageState, decoded.messageOut)) =
        messages.map (fun message => (message.opcode.messageState, message.payload)) ∧
      last.messageState = .noMessage ∧
      last.messageStart = (before ++ frames.flatten).length := by
  induction h generalizing before messageOut deflateNeeded with
  | nil =>
      have hend : decodeNextMessage before before.length messageOut deflateNeeded =
          .ok ⟨.noMessage, messageOut, deflateNeeded, before.length⟩ :=
        decodeNextMessage_short messageOut deflateNeeded (Nat.le_succ before.length)
      refine ⟨[], ⟨.noMessage, messageOut, deflateNeeded, before.length⟩, ?_, rfl, rfl, ?_⟩
      · rw [List.flatten_nil, List.append_nil, List.length_nil, decodeCalls, hend]
        rfl
      · rw [List.flatten_nil, List.append_nil]
  | @cons message bytes messages frames hfirst hrest ih =>
      have hfit := hlength message List.mem_cons_self
      have hcall := decodeNextMessage_encode messageOut deflateNeeded hfirst hfit before
        frames.flatten
      obtain ⟨results, last, hcalls, hresults, hlast, hstart⟩ :=
        ih (fun message' hmem => hlength message' (List.mem_cons_of_mem _ hmem)) (before ++ bytes)
          message.payload false
      rw [List.append_assoc, List.length_append] at hcalls
      refine ⟨⟨message.opcode.messageState, message.payload, false, before.length + bytes.length⟩ ::
        results, last, ?_, ?_, hlast, ?_⟩
      · rw [List.flatten_cons, List.length_cons, decodeCalls, hcall]
        simp only [bind, Except.bind]
        rw [hcalls]
        rfl
      · rw [List.map_cons, List.map_cons, hresults]
      · rw [hstart, List.flatten_cons, List.append_assoc]

/-- **The frame codec.** The frames of any messages, decoded one after the other by one decoder, yield
these messages and then nothing more, with every byte decoded. -/
theorem decode_roundTrip {messages : List Message} {frames : List Bytes}
    (h : List.Forall₂ IsFrameOf messages frames)
    (hmessages : ∀ message ∈ messages, message.opcode ≠ .cont ∧ message.payload.length < 2 ^ 32)
    (messageOut : Bytes) (deflateNeeded : Bool) :
    ∃ results last,
      decodeCalls frames.flatten (messages.length + 1) 0 messageOut deflateNeeded =
        .ok (results ++ [last]) ∧
      results.map (fun decoded => (decoded.messageState, decoded.messageOut)) =
        messages.map (fun message => (message.opcode.messageState, message.payload)) ∧
      last.messageState = .noMessage ∧ last.messageStart = frames.flatten.length :=
  decodeCalls_frames h (fun message hmem => (hmessages message hmem).2) [] messageOut deflateNeeded

/-- A message from the server, and one from a client that takes more bytes for the length than it
needs. -/
theorem decode_roundTrip_two :
    ∃ results last,
      decodeCalls ([encode 0x1 .short none (ascii "Hello"),
          encode 0x9 .medium (some [0x37, 0xfa, 0x21, 0x3d]) (ascii "Hi")].flatten) 3 0 [] true =
        .ok (results ++ [last]) ∧
      results.map (fun decoded => (decoded.messageState, decoded.messageOut)) =
        [(.textMessage, ascii "Hello"), (.ping, ascii "Hi")] ∧
      last.messageState = .noMessage ∧
      last.messageStart = [encode 0x1 .short none (ascii "Hello"),
          encode 0x9 .medium (some [0x37, 0xfa, 0x21, 0x3d]) (ascii "Hi")].flatten.length := by
  have hsent : Sent ⟨.text, ascii "Hello"⟩ (encode 0x1 .short none (ascii "Hello")) := by
    have hrun : (match (Connection.sendHybi World.plain .text (ascii "Hello")).run
          Connection.fresh with
        | .ok _ c' => decide ((∀ event ∈ c'.out.log, Output.isFailure event = false) ∧
            Output.emitted c'.out = encode 0x1 .short none (ascii "Hello"))
        | .error _ _ => false) = true := by decide +kernel
    cases hcall : (Connection.sendHybi World.plain .text (ascii "Hello")).run Connection.fresh with
    | error e c' =>
        rw [hcall] at hrun
        cases hrun
    | ok result c' =>
        rw [hcall] at hrun
        obtain ⟨hquiet, hemitted⟩ := of_decide_eq_true hrun
        exact ⟨World.plain, Connection.fresh, c', rfl, rfl, rfl, hcall, hquiet, hemitted⟩
  have hclient : FromClient ⟨.ping, ascii "Hi"⟩
      (encode 0x9 .medium (some [0x37, 0xfa, 0x21, 0x3d]) (ascii "Hi")) :=
    ⟨.medium, [0x37, 0xfa, 0x21, 0x3d], show 2 < 2 ^ 16 by decide, rfl, rfl⟩
  have hframes : List.Forall₂ IsFrameOf [⟨.text, ascii "Hello"⟩, ⟨.ping, ascii "Hi"⟩]
      [encode 0x1 .short none (ascii "Hello"),
        encode 0x9 .medium (some [0x37, 0xfa, 0x21, 0x3d]) (ascii "Hi")] :=
    .cons (Or.inl hsent) (.cons (Or.inr hclient) .nil)
  refine decode_roundTrip hframes ?_ [] true
  decide

end HybiPacketDecoder

end Seasocks
