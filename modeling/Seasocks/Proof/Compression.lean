import Seasocks.ZlibContext

/-!
# Compressed messages

Messages that one compression context deflates, in order, and another one inflates, given what zlib is
documented to do.
-/

namespace Seasocks

namespace Zlib

open ZlibContext

variable {z : Zlib} {Stream : Type}

/-! ### What is relied on -/

/-- Calls with a full buffer each, and one that leaves room: all together write `out`. -/
inductive Drains (call : Stream → Bytes → Nat → ZlibCall Stream) : Stream → Bytes → Bytes → Stream → Prop where
  | last {stream : Stream} {nextIn : Bytes}
      (hret : (call stream nextIn bufferSize).ret = .ok ∨ (call stream nextIn bufferSize).ret = .bufError)
      (hroom : (call stream nextIn bufferSize).out.length < bufferSize) :
      Drains call stream nextIn (call stream nextIn bufferSize).out (call stream nextIn bufferSize).stream
  | more {stream stream' : Stream} {nextIn out : Bytes}
      (hret : (call stream nextIn bufferSize).ret = .ok ∨ (call stream nextIn bufferSize).ret = .bufError)
      (hfull : (call stream nextIn bufferSize).out.length = bufferSize)
      (hrest : Drains call (call stream nextIn bufferSize).stream (call stream nextIn bufferSize).nextIn
        out stream') :
      Drains call stream nextIn ((call stream nextIn bufferSize).out ++ out) stream'

/-- An empty stored block. -/
def emptyBlock : Bytes := [0x00, 0x00, 0x00, 0xff, 0xff]

/-- The stream of some messages: what deflating each of them writes, and an empty stored block for an empty
one. -/
inductive Compressed (z : Zlib) : List Bytes → Bytes → z.Deflater → Prop where
  | nil : Compressed z [] [] z.deflateInit
  | empty {messages : List Bytes} {stream : Bytes} {deflater : z.Deflater}
      (h : Compressed z messages stream deflater) :
      Compressed z (messages ++ [[]]) (stream ++ emptyBlock) deflater
  | message {messages : List Bytes} {stream : Bytes} {deflater deflater' : z.Deflater}
      {message out : Bytes} (h : Compressed z messages stream deflater) (hmessage : message ≠ [])
      (hlength : message.length < 2 ^ 31) (hdrains : Drains z.deflate deflater message out deflater') :
      Compressed z (messages ++ [message]) (stream ++ out) deflater'

/-- The state of an inflater that has been given a stream, part by part. -/
inductive Inflated (z : Zlib) : Bytes → z.Inflater → Prop where
  | nil : Inflated z [] z.inflateInit
  | part {stream part out : Bytes} {inflater inflater' : z.Inflater} (h : Inflated z stream inflater)
      (hdrains : Drains z.inflate inflater part out inflater') :
      Inflated z (stream ++ part) inflater'

/-- What zlib is documented to do, with `decode` the text of a raw deflate stream. -/
structure Documented (z : Zlib) (decode : Bytes → Option Bytes) : Prop where
  /-- A sync flush writes all there is and ends it with an empty stored block; the output is not much larger
  than the input. -/
  flushes : ∀ messages stream deflater message, Compressed z messages stream deflater → message ≠ [] →
    message.length < 2 ^ 31 → ∃ out deflater', Drains z.deflate deflater message out deflater' ∧
      5 ≤ out.length ∧ tailEnd <:+ out ∧ out.length < 2 ^ 32
  /-- The stream stands for what was deflated, and empty stored blocks for nothing. -/
  inverts : ∀ messages stream deflater, Compressed z messages stream deflater →
    decode stream = some messages.flatten
  /-- The inflater writes all that it can of the next part of a stream. -/
  inflates : ∀ stream inflater part before more, Inflated z stream inflater →
    decode stream = some before → decode (stream ++ part) = some (before ++ more) →
    part.length < 2 ^ 32 → ∃ inflater', Drains z.inflate inflater part more inflater'

/-! ### The loops -/

theorem deflateLoop_of_drains {stream stream' : z.Deflater} {nextIn out : Bytes}
    (h : Drains z.deflate stream nextIn out stream') :
    ∃ turns, ∀ fuel, turns ≤ fuel → ∀ output,
      deflateLoop fuel stream nextIn output = some (.ok (stream', output ++ out)) := by
  induction h with
  | @last stream nextIn hret hroom =>
      refine ⟨1, fun fuel hfuel output => ?_⟩
      obtain ⟨fuel, rfl⟩ := Nat.exists_eq_succ_of_ne_zero (by omega : fuel ≠ 0)
      rw [deflateLoop, if_neg (by tauto), if_neg (by omega)]
  | @more stream stream' nextIn out hret hfull hrest ih =>
      obtain ⟨turns, hturns⟩ := ih
      refine ⟨turns + 1, fun fuel hfuel output => ?_⟩
      obtain ⟨fuel, rfl⟩ := Nat.exists_eq_succ_of_ne_zero (by omega : fuel ≠ 0)
      rw [deflateLoop, if_neg (by tauto), if_pos (by omega), hturns fuel (by omega),
        List.append_assoc]

theorem inflateLoop_of_drains {stream stream' : z.Inflater} {nextIn out : Bytes}
    (h : Drains z.inflate stream nextIn out stream') :
    ∃ turns, ∀ fuel, turns ≤ fuel → ∀ output,
      inflateLoop fuel stream nextIn output = some (stream', output ++ out, none) := by
  induction h with
  | @last stream nextIn hret hroom =>
      refine ⟨1, fun fuel hfuel output => ?_⟩
      obtain ⟨fuel, rfl⟩ := Nat.exists_eq_succ_of_ne_zero (by omega : fuel ≠ 0)
      rw [inflateLoop, if_neg (by tauto), if_neg (by omega)]
  | @more stream stream' nextIn out hret hfull hrest ih =>
      obtain ⟨turns, hturns⟩ := ih
      refine ⟨turns + 1, fun fuel hfuel output => ?_⟩
      obtain ⟨fuel, rfl⟩ := Nat.exists_eq_succ_of_ne_zero (by omega : fuel ≠ 0)
      rw [inflateLoop, if_neg (by tauto), if_pos (by omega), hturns fuel (by omega),
        List.append_assoc]

/-! ### The tail -/

theorem withoutTail_nil : withoutTail [] ++ tailEnd = emptyBlock := by
  decide

theorem withoutTail_append {out : Bytes} (hlength : 5 ≤ out.length) (htail : tailEnd <:+ out) :
    withoutTail out ++ tailEnd = out := by
  obtain ⟨front, rfl⟩ := htail
  have htailEnd : tailEnd.length = 4 := by
    decide
  have hfront : (front ++ tailEnd).length - 4 = front.length := by
    simp [htailEnd]
  have hstripped : withoutTail (front ++ tailEnd) = front := by
    rw [withoutTail, hfront, List.drop_left, List.take_left, if_neg]
    intro h
    rcases h with h | h
    · omega
    · exact h rfl
  rw [hstripped]

/-! ### One message -/

variable {decode : Bytes → Option Bytes}

/-- The two contexts between messages: the inflater has been given the stream that the deflater has
written. -/
def InStep (sender receiver : ZlibContext z) (messages : List Bytes) : Prop :=
  ∃ stream, Compressed z messages stream sender.deflateStream ∧ Inflated z stream receiver.inflateStream

theorem available_of_lt {input : Bytes} (h : input.length < 2 ^ 32) : available input = input := by
  rw [available, Nat.mod_eq_of_lt h, List.take_length]

/-- What a message is sent as continues the stream by a part whose tail is missing. -/
theorem deflate_message (hz : Documented z decode) {messages : List Bytes} {stream message : Bytes}
    {sender : ZlibContext z} (h : Compressed z messages stream sender.deflateStream)
    (hmessage : message.length < 2 ^ 31) :
    ∃ sender' part, Compressed z (messages ++ [message]) (stream ++ part) sender'.deflateStream ∧
      part.length < 2 ^ 32 ∧ ∃ sent, sent ++ tailEnd = part ∧
        ∃ turns, ∀ fuel, turns ≤ fuel → sender.deflate fuel message [] = some (.ok (sender', sent)) := by
  by_cases hempty : message = []
  · refine ⟨sender, emptyBlock, ?_, by decide, withoutTail [], withoutTail_nil, 0, fun fuel _ => ?_⟩
    · rw [hempty]
      exact h.empty
    · rw [hempty, ZlibContext.deflate, if_neg (by simp)]
  · obtain ⟨out, deflater, hdrains, hlong, htail, hshort⟩ :=
      hz.flushes messages stream sender.deflateStream message h hempty hmessage
    obtain ⟨turns, hturns⟩ := deflateLoop_of_drains hdrains
    refine ⟨{ sender with deflateStream := deflater }, out, h.message hempty hmessage hdrains, hshort,
      withoutTail out, withoutTail_append hlong htail, turns, fun fuel hfuel => ?_⟩
    rw [ZlibContext.deflate, if_pos (List.length_pos_of_ne_nil hempty), available_of_lt (by omega),
      hturns fuel hfuel []]
    simp

theorem inflate_message (hz : Documented z decode) {messages : List Bytes}
    {stream part sent message : Bytes} {deflater deflater' : z.Deflater} {receiver : ZlibContext z}
    (hbefore : Compressed z messages stream deflater)
    (hafter : Compressed z (messages ++ [message]) (stream ++ part) deflater')
    (hreceiver : Inflated z stream receiver.inflateStream) (hpart : part.length < 2 ^ 32)
    (hsent : sent ++ tailEnd = part) :
    ∃ receiver' : ZlibContext z, Inflated z (stream ++ part) receiver'.inflateStream ∧
      ∃ turns, ∀ fuel, turns ≤ fuel →
        receiver.inflate fuel sent [] = some (receiver', message, none) := by
  have htext : decode (stream ++ part) = some (messages.flatten ++ message) := by
    rw [hz.inverts _ _ _ hafter, List.flatten_append, List.flatten_singleton]
  obtain ⟨inflater, hdrains⟩ := hz.inflates stream receiver.inflateStream part messages.flatten message
    hreceiver (hz.inverts _ _ _ hbefore) htext hpart
  obtain ⟨turns, hturns⟩ := inflateLoop_of_drains hdrains
  refine ⟨{ receiver with inflateStream := inflater }, hreceiver.part hdrains, turns,
    fun fuel hfuel => ?_⟩
  rw [ZlibContext.inflate, hsent, available_of_lt hpart, hturns fuel hfuel []]
  simp

/-- A message through both contexts, which stay in step. -/
theorem inStep_message (hz : Documented z decode) {messages : List Bytes} {message : Bytes}
    {sender receiver : ZlibContext z} (h : InStep sender receiver messages)
    (hmessage : message.length < 2 ^ 31) :
    ∃ sender' receiver' sent, InStep sender' receiver' (messages ++ [message]) ∧
      ∃ turns, ∀ fuel, turns ≤ fuel →
        sender.deflate fuel message [] = some (.ok (sender', sent)) ∧
          receiver.inflate fuel sent [] = some (receiver', message, none) := by
  obtain ⟨stream, hcompressed, hinflated⟩ := h
  obtain ⟨sender', part, hafter, hpart, sent, hsent, deflating, hdeflate⟩ :=
    deflate_message hz hcompressed hmessage
  obtain ⟨receiver', hgiven, inflating, hinflate⟩ :=
    inflate_message hz hcompressed hafter hinflated hpart hsent
  refine ⟨sender', receiver', sent, ⟨stream ++ part, hafter, hgiven⟩, max deflating inflating,
    fun fuel hfuel => ⟨hdeflate fuel ?_, hinflate fuel ?_⟩⟩
  · omega
  · omega

/-! ### A sequence of messages -/

/-- Each message is deflated into an empty vector, and what comes out is inflated by the peer into another.
`none`: a loop has not ended, an exception is thrown, or an `inflate` returns false. -/
def transmit (fuel : Nat) : ZlibContext z → ZlibContext z → List Bytes → Option (List Bytes)
  | _, _, [] => some []
  | sender, receiver, message :: messages =>
      match sender.deflate fuel message [] with
      | some (.ok (sender, compressed)) =>
          match receiver.inflate fuel compressed [] with
          | some (receiver, decompressed, none) =>
              (transmit fuel sender receiver messages).map (decompressed :: ·)
          | _ => none
      | _ => none

theorem transmit_of_inStep (hz : Documented z decode) {messages : List Bytes} :
    ∀ {earlier : List Bytes} {sender receiver : ZlibContext z}, InStep sender receiver earlier →
      (∀ message ∈ messages, message.length < 2 ^ 31) →
      ∃ turns, ∀ fuel, turns ≤ fuel → transmit fuel sender receiver messages = some messages := by
  induction messages with
  | nil =>
      intro _ _ _ _ _
      exact ⟨0, fun _ _ => rfl⟩
  | cons message messages ih =>
      intro earlier sender receiver h hmessages
      obtain ⟨sender', receiver', sent, hinStep, now, hnow⟩ :=
        inStep_message hz h (hmessages message (List.mem_cons_self ..))
      obtain ⟨later, hlater⟩ := ih hinStep fun m hm => hmessages m (List.mem_cons_of_mem _ hm)
      refine ⟨max now later, fun fuel hfuel => ?_⟩
      obtain ⟨hdeflate, hinflate⟩ := hnow fuel (by omega)
      have hrest := hlater fuel (by omega)
      simp only [transmit, hdeflate, hinflate, hrest, Option.map_some]

/-! ### zlib on bytes it does not compress

With stored blocks alone, zlib's loops can be followed by hand: a deflater and an inflater that keep what
they could not write yet. -/

/-- A call that has all this to write. -/
def emit (pending : Bytes) (room : Nat) : ZlibCall Bytes where
  ret := if pending = [] then .bufError else .ok
  stream := pending.drop room
  nextIn := []
  out := pending.take room

def storedBlock (part : Bytes) : Bytes :=
  [0x00, UInt8.ofNat part.length, 0x00, 255 - UInt8.ofNat part.length, 0xff] ++ part

def storedBlocks (input : Bytes) : Bytes :=
  if input = [] then emptyBlock else storedBlock (input.take 255) ++ storedBlocks (input.drop 255)
termination_by input.length
decreasing_by
  have := List.length_pos_of_ne_nil (by assumption : input ≠ [])
  rw [List.length_drop]
  omega

/-- What a sync flush writes. -/
def flushed (input : Bytes) : Bytes := if input = [] then [] else storedBlocks input

def readStored : Bytes → Option Bytes
  | [] => some []
  | kind :: length :: high :: complement :: highComplement :: rest =>
      if kind = 0 ∧ high = 0 ∧ complement = 255 - length ∧ highComplement = 255 ∧
          length.toNat ≤ rest.length then
        (readStored (rest.drop length.toNat)).map (rest.take length.toNat ++ ·)
      else none
  | _ => none
termination_by stream => stream.length
decreasing_by
  have hdrop : (rest.drop length.toNat).length ≤ rest.length :=
    (List.drop_sublist _ _).length_le
  exact hdrop.trans_lt (Nat.lt_add_of_pos_right (by decide : 0 < 5))

def stored : Zlib where
  Deflater := Bytes
  Inflater := Bytes
  deflateInit := []
  inflateInit := []
  deflate pending input room := emit (pending ++ flushed input) room
  inflate pending input room :=
    match readStored input with
    | none => ⟨.error (-3), pending, input, []⟩
    | some text => emit (pending ++ text) room

theorem Drains.deterministic {call : Stream → Bytes → Nat → ZlibCall Stream} {stream s t : Stream}
    {nextIn out written : Bytes} (h : Drains call stream nextIn out s)
    (h' : Drains call stream nextIn written t) : out = written ∧ s = t := by
  induction h generalizing written t with
  | @last stream nextIn hret hroom =>
      cases h' with
      | last => exact ⟨rfl, rfl⟩
      | more _ hfull _ => omega
  | @more stream s nextIn out hret hfull hrest ih =>
      cases h' with
      | last _ hroom => omega
      | more _ _ hrest' =>
          obtain ⟨rfl, rfl⟩ := ih hrest'
          exact ⟨rfl, rfl⟩

/-- A call that emits what is pending, and takes no input into account once it has taken it, drains. -/
theorem drains_of_emit {call : Bytes → Bytes → Nat → ZlibCall Bytes}
    (hnil : ∀ pending room, call pending [] room = emit pending room) {n : Nat} :
    ∀ {pending nextIn all : Bytes}, call pending nextIn bufferSize = emit all bufferSize →
      all.length ≤ n → Drains call pending nextIn all [] := by
  induction n using Nat.strongRecOn with
  | ind n ih =>
      intro pending nextIn all hcall hlength
      have hret : (call pending nextIn bufferSize).ret = .ok ∨
          (call pending nextIn bufferSize).ret = .bufError := by
        rw [hcall, emit]
        dsimp only
        split <;> simp
      by_cases hroom : all.length < bufferSize
      · have hlast : Drains call pending nextIn (call pending nextIn bufferSize).out
            (call pending nextIn bufferSize).stream :=
          Drains.last hret (by rw [hcall]; simp [emit]; omega)
        rw [hcall] at hlast
        simpa [emit, List.take_of_length_le (Nat.le_of_lt hroom),
          List.drop_of_length_le (Nat.le_of_lt hroom)] using hlast
      · have hbuffer : 0 < bufferSize := by
          decide
        have hrest := ih (all.drop bufferSize).length (by rw [List.length_drop]; omega)
          (hnil (all.drop bufferSize) bufferSize) (Nat.le_refl _)
        have hmore : Drains call pending nextIn
            ((call pending nextIn bufferSize).out ++ all.drop bufferSize) [] := Drains.more hret
          (by rw [hcall]; simp [emit]; omega) (by rw [hcall]; exact hrest)
        rw [hcall] at hmore
        simpa [emit] using hmore

theorem readStored_storedBlock {part : Bytes} (h : part.length ≤ 255) (rest : Bytes) :
    readStored (storedBlock part ++ rest) = (readStored rest).map (part ++ ·) := by
  have hlength : (UInt8.ofNat part.length).toNat = part.length := by
    rw [UInt8.toNat_ofNat']
    omega
  have hblock : storedBlock part ++ rest =
      0x00 :: UInt8.ofNat part.length :: 0x00 :: (255 - UInt8.ofNat part.length) :: 0xff ::
        (part ++ rest) := rfl
  have hfits : part.length ≤ (part ++ rest).length := by
    simp
  rw [hblock, readStored, hlength, if_pos ⟨rfl, rfl, rfl, rfl, hfits⟩, List.drop_left, List.take_left]

theorem readStored_storedBlocks (input rest : Bytes) :
    readStored (storedBlocks input ++ rest) = (readStored rest).map (input ++ ·) := by
  fun_induction storedBlocks input with
  | case1 =>
      have hempty : ([] : Bytes).length ≤ 255 := by
        decide
      exact readStored_storedBlock hempty rest
  | case2 input hinput ih =>
      rw [List.append_assoc, readStored_storedBlock (List.length_take_le 255 input), ih, Option.map_map]
      congr 1
      funext text
      simp [← List.append_assoc]

theorem readStored_flushed (input rest : Bytes) :
    readStored (flushed input ++ rest) = (readStored rest).map (input ++ ·) := by
  rw [flushed]
  split
  next h => simp [h]
  next h => exact readStored_storedBlocks input rest

theorem readStored_append {stream text : Bytes} (h : readStored stream = some text) (part : Bytes) :
    readStored (stream ++ part) = (readStored part).map (text ++ ·) := by
  fun_induction readStored stream generalizing text with
  | case1 =>
      obtain rfl := Option.some.inj h
      simp
  | case2 kind length high complement highComplement rest hblock ih =>
      obtain ⟨tail, htail, rfl⟩ := Option.map_eq_some_iff.mp h
      obtain ⟨hkind, hhigh, hcomplement, hhighComplement, hfits⟩ := hblock
      have hlonger : length.toNat ≤ (rest ++ part).length := by
        rw [List.length_append]
        omega
      simp only [List.cons_append]
      rw [readStored, if_pos ⟨hkind, hhigh, hcomplement, hhighComplement, hlonger⟩,
        List.drop_append_of_le_length hfits, List.take_append_of_le_length hfits, ih htail,
        Option.map_map]
      congr 1
      funext text
      simp
  | case3 => cases h
  | case4 => cases h

theorem storedBlocks_ends (input : Bytes) :
    5 ≤ (storedBlocks input).length ∧ tailEnd <:+ storedBlocks input ∧
      (storedBlocks input).length ≤ input.length + 5 * ((input.length + 254) / 255 + 1) := by
  fun_induction storedBlocks input with
  | case1 =>
      refine ⟨by decide, by decide, ?_⟩
      simp [emptyBlock]
  | case2 input hinput ih =>
      obtain ⟨hlong, htail, hshort⟩ := ih
      have := List.length_pos_of_ne_nil hinput
      refine ⟨?_, htail.trans (List.suffix_append _ _), ?_⟩
      · rw [List.length_append]
        omega
      · simp only [List.length_append, storedBlock, List.length_take, List.length_drop,
          List.length_cons, List.length_nil] at hshort ⊢
        omega

theorem stored_deflate_drains (message : Bytes) :
    Drains stored.deflate [] message (flushed message) [] :=
  drains_of_emit (fun pending room => by simp [stored, flushed]) (by simp [stored]) (Nat.le_refl _)

theorem stored_inflate_drains {part text : Bytes} (h : readStored part = some text) :
    Drains stored.inflate [] part text [] :=
  drains_of_emit (fun pending room => by simp [stored, readStored]) (by simp [stored, h])
    (Nat.le_refl _)

theorem stored_compressed {messages : List Bytes} {stream : Bytes} {deflater : stored.Deflater}
    (h : Compressed stored messages stream deflater) :
    deflater = ([] : Bytes) ∧ readStored stream = some messages.flatten := by
  induction h with
  | nil => exact ⟨rfl, by simp [readStored]⟩
  | empty h ih =>
      refine ⟨ih.1, ?_⟩
      rw [readStored_append ih.2]
      simp [emptyBlock, readStored]
  | @message _ _ _ _ message _ h hmessage hlength hdrains ih =>
      obtain ⟨rfl, hread⟩ := ih
      obtain ⟨rfl, rfl⟩ := hdrains.deterministic (stored_deflate_drains _)
      refine ⟨rfl, ?_⟩
      have hflushed := readStored_flushed message []
      rw [List.append_nil] at hflushed
      rw [readStored_append hread, hflushed]
      simp [readStored]

theorem stored_inflated {stream : Bytes} {inflater : stored.Inflater} (h : Inflated stored stream inflater) :
    inflater = ([] : Bytes) := by
  induction h with
  | nil => rfl
  | @part stream part out inflater inflater' h hdrains ih =>
      subst ih
      cases hread : readStored part with
      | none =>
          have hret : (stored.inflate [] part bufferSize).ret = .error (-3) := by
            simp [stored, hread]
          cases hdrains with
          | last hok _ => simp [hret] at hok
          | more hok _ _ => simp [hret] at hok
      | some text => exact (hdrains.deterministic (stored_inflate_drains hread)).2

theorem stored_documented : Documented stored readStored where
  flushes messages stream deflater message h hmessage hlength := by
    obtain ⟨rfl, -⟩ := stored_compressed h
    obtain ⟨hlong, htail, hshort⟩ := storedBlocks_ends message
    have hflushed : flushed message = storedBlocks message := if_neg hmessage
    refine ⟨flushed message, [], stored_deflate_drains message, ?_, ?_, ?_⟩
    · rw [hflushed]
      exact hlong
    · rw [hflushed]
      exact htail
    · rw [hflushed]
      omega
  inverts messages stream deflater h := (stored_compressed h).2
  inflates stream inflater part before more h hbefore hmore hpart := by
    obtain rfl := stored_inflated h
    rw [readStored_append hbefore] at hmore
    obtain ⟨text, htext, happend⟩ := Option.map_eq_some_iff.mp hmore
    obtain rfl := List.append_cancel_left happend
    exact ⟨[], stored_inflate_drains htext⟩

/-- **The compression round trip.** Whatever the messages, each `inflate` of the peer returns true, and what
they give is the messages. -/
theorem transmit_messages (hz : Documented z decode) {messages : List Bytes}
    (hmessages : ∀ message ∈ messages, message.length < 2 ^ 31) :
    ∃ turns, ∀ fuel, turns ≤ fuel →
      transmit fuel (initialise z) (initialise z) messages = some messages :=
  transmit_of_inStep hz ⟨[], .nil, .nil⟩ hmessages

/-- Forty bytes with no repetition, which zlib stores, between empty messages. -/
theorem transmit_messages_stored :
    ∃ turns, ∀ fuel, turns ≤ fuel →
      transmit fuel (initialise stored) (initialise stored)
        [[], (List.range' 144 40).map UInt8.ofNat, [], (List.range' 200 40).map UInt8.ofNat] =
          some [[], (List.range' 144 40).map UInt8.ofNat, [], (List.range' 200 40).map UInt8.ofNat] :=
  transmit_messages stored_documented (by decide)

end Zlib

end Seasocks
