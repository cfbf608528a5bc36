import Seasocks.Library.MessageStream
import Seasocks.Proof.Inflating

/-!
# The messages of a stream

What the two loops over messages find in a stream, whatever of it has been read.
-/

namespace Seasocks.Connection

open Program Relation WebSocketFrame HybiPacketDecoder MessageStream

variable {w : World} {c : Connection}

/-! ### The decompressor -/

/-- What the decompressor makes of an input behind others. -/
def inflated (w : World) (inputs : List Bytes) (data : Bytes) : Option Bytes :=
  w.inflate (inputs.map fun input => ⟨.inflate input, Output.fresh⟩) data

/-- What the decompressor answers depends on nothing but what it has been given. -/
def InflatesByInputs (w : World) : Prop :=
  ∀ calls data, w.inflate calls data = inflated w (inflateInputs calls) data

/-! ### Decoders -/

/-- What the loops of a WebSocket connection come to, decompressed if need be. -/
structure Message where
  messageState : MessageState
  data : Bytes
deriving DecidableEq

/-- A Hixie stream: messages between a zero and 0xff. -/
def hixieNext (inputs : List Bytes) (stream : Bytes) : Found (List Bytes) Message :=
  match stream with
  | [] => .waits
  | first :: rest =>
      if first ≠ 0 then .closes
      else
        match rest.idxOf? 0xff with
        | none => .waits
        | some length => .item ⟨.textMessage, rest.take length⟩ inputs (length + 2)

theorem hixieNext_cons (inputs : List Bytes) (first : UInt8) (rest : Bytes) :
    hixieNext inputs (first :: rest) =
      if first ≠ 0 then .closes
      else
        match rest.idxOf? 0xff with
        | none => .waits
        | some length => .item ⟨.textMessage, rest.take length⟩ inputs (length + 2) := rfl

/-- Whether a stream begins with the two leading bytes of a compressed frame. -/
def startsCompressed : Bytes → Bool
  | b0 :: _ :: _ => rsv1 b0
  | _ => false

/-- What the decompressor has been given with a frame. -/
def inputsWith (inputs : List Bytes) (f : Frame) : List Bytes :=
  if f.compressed then inputs ++ [f.payload] else inputs

def payloadOf (w : World) (inputs : List Bytes) (f : Frame) : Option Bytes :=
  if f.compressed then inflated w (inputsWith inputs f) f.payload else some f.payload

/-- A Hybi stream: frames, none of them compressed where that was not negotiated. -/
def hybiNext (w : World) (deflate : Bool) (inputs : List Bytes) (stream : Bytes) :
    Found (List Bytes) Message :=
  match scan stream with
  | .invalid => .closes
  | .incomplete =>
      if startsCompressed stream then
        if deflate then .torn else .closes
      else .waits
  | .frame f size =>
      if f.compressed && !deflate then .closes
      else
        match payloadOf w inputs f with
        | none => .closes
        | some data =>
            if messageStateOf f.opcode = .error ∨ messageStateOf f.opcode = .close then .closes
            else .item ⟨messageStateOf f.opcode, data⟩ (inputsWith inputs f) size

theorem startsCompressed_of_frame {stream : Bytes} {f : Frame} {size : Nat}
    (h : scan stream = .frame f size) : startsCompressed stream = f.compressed := by
  match stream with
  | [] | [_] => simp [scan] at h
  | b0 :: b1 :: rest =>
      rw [scan] at h
      split_ifs at h
      injection h with hf
      rw [← hf, startsCompressed]

theorem startsCompressed_append {stream : Bytes} (h : startsCompressed stream = true) (more : Bytes) :
    startsCompressed (stream ++ more) = true := by
  match stream with
  | [] | [_] => cases h
  | b0 :: b1 :: rest => exact h

theorem hixieNext_item {inputs : List Bytes} {stream : Bytes} {message : Message} {inputs' : List Bytes}
    {size : Nat} (h : hixieNext inputs stream = .item message inputs' size) :
    ∃ text more, 0xff ∉ text ∧ stream = 0 :: (text ++ 0xff :: more) ∧
      message = ⟨.textMessage, text⟩ ∧ inputs' = inputs ∧ size = text.length + 2 := by
  unfold hixieNext at h
  cases stream with
  | nil => cases h
  | cons first rest =>
      dsimp only at h
      split_ifs at h with hfirst
      rw [not_not] at hfirst
      by_cases hmem : 0xff ∈ rest
      · obtain ⟨text, more, rfl, htext⟩ := List.eq_append_cons_of_mem hmem
        rw [idxOf?_append_cons htext] at h
        dsimp only at h
        rw [List.take_left] at h
        injection h with hmessage hinputs hsize
        exact ⟨text, more, htext, by rw [hfirst], hmessage.symm, hinputs.symm, hsize.symm⟩
      · rw [List.idxOf?_eq_none_iff.mpr hmem] at h
        cases h

theorem hixieNext_of_text {text : Bytes} (h : 0xff ∉ text) (inputs : List Bytes) (more : Bytes) :
    hixieNext inputs (0 :: (text ++ 0xff :: more)) =
      .item ⟨.textMessage, text⟩ inputs (text.length + 2) := by
  rw [hixieNext, if_neg (fun hne => hne rfl), idxOf?_append_cons h]
  dsimp only
  rw [List.take_left]

/-- How a Hixie connection takes messages. -/
def hixieDecoder : Decoder UInt8 (List Bytes) Message where
  next := hixieNext
  size := by
    intro inputs stream message inputs' size h
    obtain ⟨text, more, -, rfl, -, -, rfl⟩ := hixieNext_item h
    simp only [List.length_cons, List.length_append]
    omega
  item_append := by
    intro inputs stream message inputs' size h more
    obtain ⟨text, rest, htext, rfl, rfl, rfl, rfl⟩ := hixieNext_item h
    rw [List.cons_append, List.append_assoc, List.cons_append]
    exact hixieNext_of_text htext _ _
  closes_append := by
    intro inputs stream h more
    cases stream with
    | nil => cases h
    | cons first rest =>
        rw [List.cons_append]
        unfold hixieNext at h ⊢
        dsimp only at h ⊢
        split_ifs at h ⊢ with hfirst
        · rfl
        · cases hidx : rest.idxOf? 0xff <;> rw [hidx] at h <;> cases h

theorem hybiNext_of_frame {deflate : Bool} {inputs : List Bytes} {stream : Bytes} {f : Frame} {size : Nat}
    (h : scan stream = .frame f size) (more : Bytes) :
    hybiNext w deflate inputs (stream ++ more) = hybiNext w deflate inputs stream := by
  rw [hybiNext, hybiNext, h, scan_append_frame h]

theorem hybiNext_item {deflate : Bool} {inputs : List Bytes} {stream : Bytes} {message : Message}
    {inputs' : List Bytes} {size : Nat}
    (h : hybiNext w deflate inputs stream = .item message inputs' size) :
    ∃ f, scan stream = .frame f size := by
  unfold hybiNext at h
  cases hscan : scan stream with
  | invalid =>
      rw [hscan] at h
      cases h
  | incomplete =>
      rw [hscan] at h
      dsimp only at h
      split_ifs at h
  | frame f size' =>
      rw [hscan] at h
      dsimp only at h
      split_ifs at h
      · cases hpayload : payloadOf w inputs f <;> rw [hpayload] at h <;> cases h
      · cases hpayload : payloadOf w inputs f with
        | none =>
            rw [hpayload] at h
            cases h
        | some data =>
            rw [hpayload] at h
            injection h with _ _ hsize
            exact ⟨f, by rw [hsize]⟩

theorem hybiNext_invalid {deflate : Bool} {inputs : List Bytes} {stream : Bytes}
    (h : scan stream = .invalid) : hybiNext w deflate inputs stream = .closes := by
  rw [hybiNext, h]

theorem hybiNext_incomplete (w : World) (deflate : Bool) (inputs : List Bytes) {stream : Bytes}
    (h : scan stream = .incomplete) :
    hybiNext w deflate inputs stream =
      if startsCompressed stream then
        if deflate then .torn else .closes
      else .waits := by
  rw [hybiNext, h]

theorem hybiNext_frame (w : World) (deflate : Bool) (inputs : List Bytes) {stream : Bytes} {f : Frame}
    {size : Nat} (h : scan stream = .frame f size) :
    hybiNext w deflate inputs stream =
      match if f.compressed && !deflate then none else payloadOf w inputs f with
      | none => .closes
      | some data =>
          if messageStateOf f.opcode = .error ∨ messageStateOf f.opcode = .close then .closes
          else .item ⟨messageStateOf f.opcode, data⟩ (inputsWith inputs f) size := by
  rw [hybiNext, h]
  dsimp only
  by_cases hrefused : (f.compressed && !deflate) = true
  · rw [if_pos hrefused, if_pos hrefused]
  · rw [if_neg hrefused, if_neg hrefused]

/-- How a Hybi connection takes messages. -/
def hybiDecoder (w : World) (deflate : Bool) : Decoder UInt8 (List Bytes) Message where
  next := hybiNext w deflate
  size := by
    intro inputs stream message inputs' size h
    obtain ⟨f, hscan⟩ := hybiNext_item h
    have hsize := scan_size hscan
    omega
  item_append := by
    intro inputs stream message inputs' size h more
    obtain ⟨f, hscan⟩ := hybiNext_item h
    rw [hybiNext_of_frame hscan, h]
  closes_append := by
    intro inputs stream h more
    cases hscan : scan stream with
    | invalid => rw [hybiNext, scan_append_invalid hscan]
    | frame f size => rw [hybiNext_of_frame hscan, h]
    | incomplete =>
        rw [hybiNext, hscan] at h
        dsimp only at h
        split_ifs at h with hcompressed hdeflate
        have hmore := startsCompressed_append hcompressed more
        rw [hybiNext]
        cases hscan' : scan (stream ++ more) with
        | invalid => rfl
        | incomplete =>
            dsimp only
            rw [if_pos hmore, if_neg hdeflate]
        | frame f size =>
            dsimp only
            rw [startsCompressed_of_frame hscan'] at hmore
            rw [if_pos (by simp [hmore, hdeflate])]

/-- How a WebSocket connection takes messages. -/
def decoder (w : World) (c : Connection) : Decoder UInt8 (List Bytes) Message :=
  if c.state = .handlingHixieWebSocket then hixieDecoder else hybiDecoder w c.perMessageDeflate

end Seasocks.Connection
