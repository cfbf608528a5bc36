import Seasocks.HybiPacketDecoder
import Seasocks.Library.WebSocketFrame

/-!
# What one call of the decoder does

`decodeNextMessage` reads the frame that RFC 6455 puts at `_messageStart`, with two exceptions. The
size checks for the extended payload length compare with the whole buffer, so behind another frame
they accept a length field that is not completely there. And the copying loop counts in an `unsigned`,
so it never reaches the end of a payload of `2 ^ 32` bytes or more.
-/

namespace Seasocks.HybiPacketDecoder

open WebSocketFrame

/-! ### Reading numbers -/

theorem bigEndian_append_singleton (bytes : Bytes) (byte : UInt8) :
    bigEndian (bytes ++ [byte]) = bigEndian bytes * 256 + byte.toNat := by
  simp [bigEndian]

theorem networkValue_of_le {buffer : Bytes} {ptr count : Nat} (h : ptr + count ≤ buffer.length) :
    networkValue buffer ptr count = .ok (bigEndian ((buffer.drop ptr).take count)) := by
  induction count with
  | zero => simp [networkValue, bigEndian]
  | succ count ih =>
      have hlt : count < (buffer.drop ptr).length := by
        rw [List.length_drop]
        omega
      rw [networkValue, ih (by omega), byteAt_of_lt (by omega),
        List.take_succ_eq_append_getElem hlt, bigEndian_append_singleton, List.getElem_drop]
      rfl

theorem networkValue_of_gt {buffer : Bytes} {ptr count : Nat} (h : ptr ≤ buffer.length)
    (hcut : buffer.length < ptr + count) :
    networkValue buffer ptr count = .error .outOfRange := by
  induction count with
  | zero => omega
  | succ count ih =>
      rw [networkValue]
      by_cases hlast : buffer.length = ptr + count
      · rw [networkValue_of_le (by omega), byteAt_of_ge (by omega)]
        rfl
      · rw [ih (by omega)]
        rfl

/-! ### The copying loop -/

theorem decodedByte_eq (byte : UInt8) (word : UInt32) :
    ((byte.toUInt32 ^^^ word) &&& 0xff).toUInt8 = byte ^^^ word.toUInt8 := by
  have hmask : (0xff : UInt32).toUInt8 = -1 := by decide
  rw [UInt32.toUInt8_and, UInt32.toUInt8_xor, UInt8.toUInt8_toUInt32, hmask, UInt8.and_neg_one]

/-- The byte of the mask the loop uses at index `i`. -/
def maskByte (mask : UInt32) (i : Nat) : UInt8 :=
  (mask >>> ((3 - (UInt32.ofNat i &&& 3)) * 8)).toUInt8

theorem unmask_of_le {payloadLength : Nat} (hbound : payloadLength < 2 ^ 32) (mask : UInt32)
    (rest : Bytes) (i : Nat) (hi : i ≤ payloadLength) (h : payloadLength ≤ i + rest.length) :
    unmask payloadLength mask rest (UInt32.ofNat i)
      = .ok ((rest.take (payloadLength - i)).mapIdx
          fun k byte => byte ^^^ maskByte mask (i + k)) := by
  have hnat : ∀ i ≤ payloadLength, (UInt32.ofNat i).toNat = i := by
    intro i hi
    rw [UInt32.toNat_ofNat']
    exact Nat.mod_eq_of_lt (by omega)
  induction rest generalizing i with
  | nil =>
      have hend : i = payloadLength := by simpa using Nat.le_antisymm hi h
      rw [unmask, hnat i hi]
      simp [hend]
  | cons byte rest ih =>
      rw [unmask, hnat i hi]
      by_cases hlt : i < payloadLength
      · have hnext : UInt32.ofNat i + 1 = UInt32.ofNat (i + 1) := by
          apply UInt32.toNat_inj.mp
          simp
        have hrest : payloadLength ≤ i + 1 + rest.length := by
          rw [List.length_cons] at h
          omega
        have hstep : payloadLength - i = payloadLength - (i + 1) + 1 := by omega
        have hindex : (fun k (byte : UInt8) => byte ^^^ maskByte mask (i + (k + 1)))
            = fun k byte => byte ^^^ maskByte mask (i + 1 + k) := by
          funext k byte
          rw [Nat.add_comm k 1, Nat.add_assoc]
        rw [if_pos hlt, hnext, ih (i + 1) hlt hrest, hstep, List.take_succ_cons, List.mapIdx_cons,
          hindex]
        simp only [decodedByte_eq]
        rfl
      · have hend : payloadLength - i = 0 := by omega
        simp [hlt, hend]

/-- The index wraps before it reaches a length of `2 ^ 32`, so the loop leaves the buffer. -/
theorem unmask_of_gt (payloadLength : Nat) (mask : UInt32) (rest : Bytes) (i : UInt32)
    (h : 2 ^ 32 ≤ payloadLength) : unmask payloadLength mask rest i = .error .outOfRange := by
  have hlt : ∀ i : UInt32, i.toNat < payloadLength := fun i =>
    Nat.lt_of_lt_of_le i.toNat_lt h
  induction rest generalizing i with
  | nil => simp [unmask, hlt i]
  | cons byte rest ih => simp [unmask, hlt i, ih, bind, Except.bind]

theorem byteShift_toNat (i : UInt32) : ((3 - (i &&& 3)) * 8).toNat = (3 - i.toNat % 4) * 8 := by
  have hmod : (i &&& 3).toNat = i.toNat % 4 := by
    rw [UInt32.toNat_and]
    exact Nat.and_two_pow_sub_one_eq_mod i.toNat 2
  have hlt : i.toNat % 4 < 4 := Nat.mod_lt _ (by decide)
  have hthree : (3 : UInt32).toNat = 3 := rfl
  have height : (8 : UInt32).toNat = 8 := rfl
  have hle : (i &&& 3) ≤ 3 := by
    rw [UInt32.le_iff_toNat_le, hmod]
    omega
  rw [UInt32.toNat_mul, UInt32.toNat_sub_of_le _ _ hle, hmod, hthree, height, Nat.mod_eq_of_lt]
  omega

theorem maskByte_eq (k0 k1 k2 k3 : UInt8) (i : Nat) :
    maskByte (UInt32.ofNat (bigEndian [k0, k1, k2, k3])) i = [k0, k1, k2, k3].getD (i % 4) 0 := by
  have hlt : i % 4 < 4 := Nat.mod_lt _ (by decide)
  have hwrap : i % 2 ^ 32 % 4 = i % 4 := Nat.mod_mod_of_dvd i (by decide)
  have h0 := k0.toNat_lt
  have h1 := k1.toNat_lt
  have h2 := k2.toNat_lt
  have h3 := k3.toNat_lt
  apply UInt8.toNat_inj.mp
  rw [maskByte, UInt32.toNat_toUInt8, UInt32.toNat_shiftRight, byteShift_toNat, UInt32.toNat_ofNat',
    UInt32.toNat_ofNat', hwrap]
  simp only [bigEndian, List.foldl_cons, List.foldl_nil, Nat.shiftRight_eq_div_pow]
  generalize i % 4 = r at hlt
  obtain rfl | rfl | rfl | rfl : r = 0 ∨ r = 1 ∨ r = 2 ∨ r = 3 := by omega
  all_goals
    simp only [List.getD_cons_zero, List.getD_cons_succ, Nat.reduceSub, Nat.reduceMul, Nat.reduceMod,
      Nat.reducePow]
    omega

/-! ### The header -/

theorem byteAt_of_drop {buffer : Bytes} {ptr : Nat} {byte : UInt8} {rest : Bytes}
    (h : buffer.drop ptr = byte :: rest) : byteAt buffer ptr = .ok byte := by
  have hlt : ptr < buffer.length := by
    by_contra hge
    rw [List.drop_eq_nil_of_le (by omega)] at h
    simp at h
  have hcons := List.drop_eq_getElem_cons hlt
  rw [h] at hcons
  injection hcons with hbyte
  rw [byteAt_of_lt hlt, hbyte]

theorem reservedBits_rsv23 (b0 : UInt8) :
    ((b0 &&& ((7 : UInt8) <<< 4)) &&& 0x30 ≠ 0) ↔ rsv23 b0 = true := by
  have hmask : ((7 : UInt8) <<< 4) &&& 0x30 = 0x30 := by decide
  rw [UInt8.and_assoc, hmask, rsv23, bne_iff_ne]

theorem reservedBits_rsv1 (b0 : UInt8) :
    ((b0 &&& ((7 : UInt8) <<< 4)) &&& 0x40 != 0) = rsv1 b0 := by
  have hmask : ((7 : UInt8) <<< 4) &&& 0x40 = 0x40 := by decide
  rw [UInt8.and_assoc, hmask, rsv1]

theorem extendedSize_cases (b1 : UInt8) :
    (extendedSize b1 = 0 ∧ length7 b1 ≠ 126 ∧ length7 b1 ≠ 127) ∨
    (extendedSize b1 = 2 ∧ length7 b1 = 126) ∨ (extendedSize b1 = 8 ∧ length7 b1 = 127) := by
  unfold extendedSize
  split_ifs with h126 h127
  · exact Or.inr (Or.inl ⟨rfl, h126⟩)
  · exact Or.inr (Or.inr ⟨rfl, h127⟩)
  · exact Or.inl ⟨rfl, h126, h127⟩

/-- The mask as one word, zero for an unmasked frame. -/
def maskWord (b1 : UInt8) (rest : Bytes) : UInt32 :=
  if masked b1 then UInt32.ofNat (bigEndian ((rest.drop (extendedSize b1)).take 4)) else 0

theorem unmask_payload {b1 : UInt8} {rest : Bytes} (hbound : payloadLength b1 rest < 2 ^ 32)
    (hcomplete : extendedSize b1 + keySize b1 + payloadLength b1 rest ≤ rest.length) :
    unmask (payloadLength b1 rest) (maskWord b1 rest)
        (rest.drop (extendedSize b1 + keySize b1)) 0 = .ok (payload b1 rest) := by
  have hloop := unmask_of_le hbound (maskWord b1 rest)
    (rest.drop (extendedSize b1 + keySize b1)) 0 (Nat.zero_le _)
    (by rw [List.length_drop]; omega)
  rw [show (0 : UInt32) = UInt32.ofNat 0 from rfl, hloop, Nat.sub_zero]
  simp only [Nat.zero_add, payload, maskWord]
  by_cases hmasked : masked b1 = true
  · have hkey : keySize b1 = 4 := by simp [keySize, hmasked]
    obtain ⟨k0, k1, k2, k3, hbytes⟩ : ∃ k0 k1 k2 k3,
        (rest.drop (extendedSize b1)).take 4 = [k0, k1, k2, k3] := by
      apply List.length_eq_four.mp
      rw [List.length_take, List.length_drop]
      omega
    simp only [hmasked, if_true, hkey, hbytes, maskByte_eq, applyKey]
  · have hzero : ∀ i, maskByte 0 i = 0 := fun i => by simp [maskByte]
    have hsame : ∀ data : Bytes, data.mapIdx (fun _ byte => byte) = data := fun data =>
      List.ext_getElem (by simp) (by simp)
    simp [hmasked, hzero, hsame]

section Header

variable {buffer rest : Bytes} {messageStart : Nat} {b0 b1 : UInt8}

theorem length_of_drop (h : buffer.drop messageStart = b0 :: b1 :: rest) :
    buffer.length = messageStart + 2 + rest.length := by
  have hlength := congrArg List.length h
  simp only [List.length_drop, List.length_cons] at hlength
  omega

theorem drop_of_drop (h : buffer.drop messageStart = b0 :: b1 :: rest) (count : Nat) :
    buffer.drop (messageStart + 2 + count) = rest.drop count := by
  rw [Nat.add_assoc, ← List.drop_drop, h, Nat.add_comm 2 count]
  rfl

theorem readPayloadLength_eq (h : buffer.drop messageStart = b0 :: b1 :: rest) :
    readPayloadLength buffer (messageStart + 2) (length7 b1) =
      if rest.length < extendedSize b1 then
        if 2 + extendedSize b1 ≤ buffer.length then .error .outOfRange else .ok none
      else .ok (some (payloadLength b1 rest, messageStart + 2 + extendedSize b1)) := by
  have hlength := length_of_drop h
  have hdrop := drop_of_drop h 0
  rw [Nat.add_zero, List.drop_zero] at hdrop
  have hread : ∀ count, extendedSize b1 = count → count ≠ 0 →
      (if buffer.length < 2 + count then (.ok none : Except Fault (Option (Nat × Nat))) else do
        let rawLength ← networkValue buffer (messageStart + 2) count
        return some (rawLength, messageStart + 2 + count)) =
      if rest.length < count then
        if 2 + count ≤ buffer.length then .error .outOfRange else .ok none
      else .ok (some (payloadLength b1 rest, messageStart + 2 + count)) := by
    intro count hcount hpos
    by_cases hcut : rest.length < count
    · by_cases hwhole : 2 + count ≤ buffer.length
      · rw [if_neg (by omega), networkValue_of_gt (by omega) (by omega), if_pos hcut, if_pos hwhole]
        rfl
      · rw [if_pos (by omega), if_pos hcut, if_neg hwhole]
    · rw [if_neg (by omega), if_neg hcut, networkValue_of_le (by omega), hdrop, payloadLength,
        hcount, if_neg hpos]
      rfl
  unfold readPayloadLength
  rcases extendedSize_cases b1 with ⟨hsize, h126, h127⟩ | ⟨hsize, h126⟩ | ⟨hsize, h127⟩
  · simp [h126, h127, hsize, payloadLength, pure, Except.pure]
  · rw [if_pos h126, hsize]
    exact hread 2 hsize (by decide)
  · rw [if_neg (by omega), if_pos h127, hsize]
    exact hread 8 hsize (by decide)

theorem readMask_eq (h : buffer.drop messageStart = b0 :: b1 :: rest) :
    readMask buffer (messageStart + 2 + extendedSize b1) (masked b1) =
      if masked b1 = true ∧ rest.length < extendedSize b1 + 4 then .ok none
      else .ok (some (maskWord b1 rest, messageStart + 2 + (extendedSize b1 + keySize b1))) := by
  have hlength := length_of_drop h
  have hdrop := drop_of_drop h (extendedSize b1)
  unfold readMask
  by_cases hmasked : masked b1 = true
  · have hkey : keySize b1 = 4 := by simp [keySize, hmasked]
    by_cases hcut : rest.length < extendedSize b1 + 4
    · have hshort : buffer.length < messageStart + 2 + extendedSize b1 + 4 := by omega
      rw [if_pos hmasked, if_pos hshort, if_pos ⟨hmasked, hcut⟩]
      rfl
    · rw [if_pos hmasked, if_neg (by omega), networkValue_of_le (by omega), hdrop,
        if_neg (by omega), hkey, maskWord, if_pos hmasked, ← Nat.add_assoc]
      rfl
  · have hkey : keySize b1 = 0 := by simp [keySize, hmasked]
    rw [if_neg hmasked, if_neg (by simp [hmasked]), hkey, maskWord, if_neg hmasked]
    rfl

/-- The part of `decodeNextMessage` that comes after the reserved bits. -/
theorem decodeNextMessage_of_drop (messageOut : Bytes) (deflateNeeded : Bool)
    (h : buffer.drop messageStart = b0 :: b1 :: rest) :
    decodeNextMessage buffer messageStart messageOut deflateNeeded =
      if !fin b0 || rsv23 b0 then
        .ok ⟨.error, messageOut, deflateNeeded, messageStart⟩
      else do
        let noMessage : Decoded := ⟨.noMessage, messageOut, rsv1 b0, messageStart⟩
        match ← readPayloadLength buffer (messageStart + 2) (length7 b1) with
        | none => return noMessage
        | some (payloadLength, ptr) =>
            match ← readMask buffer ptr (masked b1) with
            | none => return noMessage
            | some (mask, ptr) =>
                let bytesLeftInBuffer ← subtract buffer.length ptr
                if payloadLength > bytesLeftInBuffer then
                  return noMessage
                else
                  let messageOut ← unmask payloadLength mask (buffer.drop ptr) 0
                  return ⟨messageStateOf (opcode b0), messageOut, rsv1 b0, ptr + payloadLength⟩ := by
  have hlength := length_of_drop h
  have hsecond : buffer.drop (messageStart + 1) = b1 :: rest := by
    rw [← List.drop_drop, h]
    rfl
  unfold decodeNextMessage
  rw [if_neg (by omega), byteAt_of_drop h]
  by_cases hfin : b0 &&& 0x80 = 0
  · simp [hfin, fin, bind, Except.bind, pure, Except.pure]
  · by_cases hrsv : rsv23 b0 = true
    · have hbits := (reservedBits_rsv23 b0).mpr hrsv
      simp [hfin, fin, hrsv, hbits, bind, Except.bind, pure, Except.pure]
    · have hbits := mt (reservedBits_rsv23 b0).mp hrsv
      have haccepted : (!fin b0 || rsv23 b0) = false := by simp [fin, hfin, hrsv]
      simp only [haccepted, bind, Except.bind, hfin, if_false, hbits, byteAt_of_drop hsecond,
        reservedBits_rsv1]
      rfl

end Header

/-! ### The outcomes of a call -/

section Outcome

variable {buffer : Bytes} {messageStart : Nat}

/-- The frame at `messageStart` is acceptable so far and its extended payload length is cut off by the
end of the buffer, which as a whole is long enough to pass the size check. -/
def LengthCutOff (buffer : Bytes) (messageStart : Nat) : Prop :=
  ∃ b0 b1 rest, buffer.drop messageStart = b0 :: b1 :: rest ∧ fin b0 = true ∧ rsv23 b0 = false ∧
    rest.length < extendedSize b1 ∧ 2 + extendedSize b1 ≤ buffer.length

/-- The frame at `messageStart` is complete and its payload does not fit an `unsigned` index. -/
def Oversized (buffer : Bytes) (messageStart : Nat) : Prop :=
  ∃ f size, scan (buffer.drop messageStart) = .frame f size ∧ 2 ^ 32 ≤ f.payload.length

theorem payload_length {b1 : UInt8} {rest : Bytes}
    (hcomplete : extendedSize b1 + keySize b1 + payloadLength b1 rest ≤ rest.length) :
    (payload b1 rest).length = payloadLength b1 rest := by
  unfold payload
  split
  · rw [applyKey_length, List.length_take, List.length_drop]
    omega
  · rw [List.length_take, List.length_drop]
    omega

theorem decodeNextMessage_short (messageOut : Bytes) (deflateNeeded : Bool)
    (h : buffer.length ≤ messageStart + 1) :
    decodeNextMessage buffer messageStart messageOut deflateNeeded
      = .ok ⟨.noMessage, messageOut, deflateNeeded, messageStart⟩ := by
  unfold decodeNextMessage
  rw [if_pos h]
  rfl

/-- A stream with fewer than two bytes left, or the two leading bytes and the rest. -/
theorem drop_cases (buffer : Bytes) (messageStart : Nat) :
    (buffer.length ≤ messageStart + 1 ∧ scan (buffer.drop messageStart) = .incomplete) ∨
    ∃ b0 b1 rest, buffer.drop messageStart = b0 :: b1 :: rest := by
  match h : buffer.drop messageStart with
  | [] =>
      have hlength := congrArg List.length h
      rw [List.length_drop, List.length_nil] at hlength
      exact Or.inl ⟨by omega, rfl⟩
  | [_] =>
      have hlength := congrArg List.length h
      rw [List.length_drop, List.length_singleton] at hlength
      exact Or.inl ⟨by omega, rfl⟩
  | b0 :: b1 :: rest => exact Or.inr ⟨b0, b1, rest, rfl⟩

theorem decodeNextMessage_invalid (messageOut : Bytes) (deflateNeeded : Bool)
    (h : scan (buffer.drop messageStart) = .invalid) :
    decodeNextMessage buffer messageStart messageOut deflateNeeded
      = .ok ⟨.error, messageOut, deflateNeeded, messageStart⟩ := by
  rcases drop_cases buffer messageStart with ⟨-, hscan⟩ | ⟨b0, b1, rest, hdrop⟩
  · rw [hscan] at h
    simp at h
  · rw [decodeNextMessage_of_drop messageOut deflateNeeded hdrop]
    rw [hdrop, scan] at h
    split_ifs at h with hinvalid
    rw [if_pos hinvalid]

/-- An incomplete frame yields `NoMessage`, but `deflateNeeded` already holds its first reserved bit. -/
theorem decodeNextMessage_incomplete (messageOut : Bytes) (deflateNeeded : Bool)
    (h : scan (buffer.drop messageStart) = .incomplete)
    (hreadable : ¬ LengthCutOff buffer messageStart) :
    decodeNextMessage buffer messageStart messageOut deflateNeeded
      = .ok ⟨.noMessage, messageOut,
          match buffer.drop messageStart with
          | b0 :: _ :: _ => rsv1 b0
          | _ => deflateNeeded,
          messageStart⟩ := by
  rcases drop_cases buffer messageStart with ⟨hshort, -⟩ | ⟨b0, b1, rest, hdrop⟩
  · rw [decodeNextMessage_short messageOut deflateNeeded hshort]
    have hlength : (buffer.drop messageStart).length ≤ 1 := by
      rw [List.length_drop]
      omega
    match hdrop : buffer.drop messageStart with
    | [] => rfl
    | [_] => rfl
    | _ :: _ :: _ => simp [hdrop] at hlength
  · rw [decodeNextMessage_of_drop messageOut deflateNeeded hdrop, hdrop]
    rw [hdrop, scan] at h
    split_ifs at h with hinvalid hshort
    rw [if_neg hinvalid, readPayloadLength_eq hdrop]
    by_cases hextended : rest.length < extendedSize b1
    · have hwhole : ¬ 2 + extendedSize b1 ≤ buffer.length := by
        intro hwhole
        apply hreadable
        simp only [Bool.or_eq_true, Bool.not_eq_true', not_or, Bool.not_eq_false,
          Bool.not_eq_true] at hinvalid
        exact ⟨b0, b1, rest, hdrop, hinvalid.1, hinvalid.2, hextended, hwhole⟩
      rw [if_pos hextended, if_neg hwhole]
      rfl
    · rw [if_neg hextended]
      simp only [bind, Except.bind, readMask_eq hdrop]
      by_cases hmask : masked b1 = true ∧ rest.length < extendedSize b1 + 4
      · rw [if_pos hmask]
        rfl
      · have hlength := length_of_drop hdrop
        have hkey : keySize b1 ≤ rest.length - extendedSize b1 := by
          unfold keySize
          split_ifs with hmasked
          · have := mt (And.intro hmasked) hmask
            omega
          · omega
        rw [if_neg hmask]
        simp only [subtract, if_pos (show messageStart + 2 + (extendedSize b1 + keySize b1)
          ≤ buffer.length by omega)]
        rw [if_pos (by omega)]
        rfl

theorem decodeNextMessage_cutOff (messageOut : Bytes) (deflateNeeded : Bool)
    (h : LengthCutOff buffer messageStart) :
    decodeNextMessage buffer messageStart messageOut deflateNeeded = .error .outOfRange := by
  obtain ⟨b0, b1, rest, hdrop, hfin, hrsv, hcut, hwhole⟩ := h
  rw [decodeNextMessage_of_drop messageOut deflateNeeded hdrop, if_neg (by simp [hfin, hrsv]),
    readPayloadLength_eq hdrop, if_pos hcut, if_pos hwhole]
  rfl

/-- A complete frame reaches the copying loop. -/
theorem decodeNextMessage_complete (messageOut : Bytes) (deflateNeeded : Bool) {b0 b1 : UInt8}
    {rest : Bytes} (hdrop : buffer.drop messageStart = b0 :: b1 :: rest)
    (hvalid : ¬ (!fin b0 || rsv23 b0) = true)
    (hcomplete : extendedSize b1 + keySize b1 + payloadLength b1 rest ≤ rest.length) :
    decodeNextMessage buffer messageStart messageOut deflateNeeded = do
      let messageOut ← unmask (payloadLength b1 rest) (maskWord b1 rest)
        (rest.drop (extendedSize b1 + keySize b1)) 0
      return ⟨messageStateOf (opcode b0), messageOut, rsv1 b0,
        messageStart + 2 + (extendedSize b1 + keySize b1) + payloadLength b1 rest⟩ := by
  have hlength := length_of_drop hdrop
  have hkey : ¬ (masked b1 = true ∧ rest.length < extendedSize b1 + 4) := by
    rintro ⟨hmasked, hshort⟩
    have : keySize b1 = 4 := by simp [keySize, hmasked]
    omega
  rw [decodeNextMessage_of_drop messageOut deflateNeeded hdrop, if_neg hvalid,
    readPayloadLength_eq hdrop, if_neg (by omega)]
  simp only [bind, Except.bind, readMask_eq hdrop, if_neg hkey, drop_of_drop hdrop, subtract,
    if_pos (show messageStart + 2 + (extendedSize b1 + keySize b1) ≤ buffer.length by omega)]
  rw [if_neg (by omega)]

theorem decodeNextMessage_frame (messageOut : Bytes) (deflateNeeded : Bool) {f : Frame} {size : Nat}
    (h : scan (buffer.drop messageStart) = .frame f size) (hsize : f.payload.length < 2 ^ 32) :
    decodeNextMessage buffer messageStart messageOut deflateNeeded
      = .ok ⟨messageStateOf f.opcode, f.payload, f.compressed, messageStart + size⟩ := by
  rcases drop_cases buffer messageStart with ⟨-, hscan⟩ | ⟨b0, b1, rest, hdrop⟩
  · rw [hscan] at h
    simp at h
  · rw [hdrop, scan] at h
    split_ifs at h with hinvalid hshort
    simp only [Scan.frame.injEq] at h
    obtain ⟨rfl, rfl⟩ := h
    have hcomplete := Nat.le_of_not_lt hshort
    rw [payload_length hcomplete] at hsize
    rw [decodeNextMessage_complete messageOut deflateNeeded hdrop hinvalid hcomplete,
      unmask_payload hsize hcomplete, headerSize]
    simp only [bind, Except.bind, pure, Except.pure, Except.ok.injEq, Decoded.mk.injEq, true_and]
    omega

theorem decodeNextMessage_oversized (messageOut : Bytes) (deflateNeeded : Bool)
    (h : Oversized buffer messageStart) :
    decodeNextMessage buffer messageStart messageOut deflateNeeded = .error .outOfRange := by
  obtain ⟨f, size, hscan, hsize⟩ := h
  rcases drop_cases buffer messageStart with ⟨-, hshort⟩ | ⟨b0, b1, rest, hdrop⟩
  · rw [hshort] at hscan
    simp at hscan
  · rw [hdrop, scan] at hscan
    split_ifs at hscan with hinvalid hshort
    simp only [Scan.frame.injEq] at hscan
    obtain ⟨rfl, rfl⟩ := hscan
    have hcomplete := Nat.le_of_not_lt hshort
    rw [payload_length hcomplete] at hsize
    rw [decodeNextMessage_complete messageOut deflateNeeded hdrop hinvalid hcomplete,
      unmask_of_gt _ _ _ _ hsize]
    rfl

/-- What a call that returns has found. -/
theorem decodeNextMessage_ok {messageOut : Bytes} {deflateNeeded : Bool} {decoded : Decoded}
    (h : decodeNextMessage buffer messageStart messageOut deflateNeeded = .ok decoded) :
    (scan (buffer.drop messageStart) = .invalid ∧
        decoded = ⟨.error, messageOut, deflateNeeded, messageStart⟩) ∨
      (scan (buffer.drop messageStart) = .incomplete ∧ decoded.messageState = .noMessage ∧
        decoded.messageOut = messageOut ∧ decoded.messageStart = messageStart) ∨
      ∃ f size, scan (buffer.drop messageStart) = .frame f size ∧
        decoded = ⟨messageStateOf f.opcode, f.payload, f.compressed, messageStart + size⟩ := by
  cases hscan : scan (buffer.drop messageStart) with
  | invalid =>
      rw [decodeNextMessage_invalid messageOut deflateNeeded hscan] at h
      injection h with h
      exact Or.inl ⟨rfl, h.symm⟩
  | incomplete =>
      by_cases hcut : LengthCutOff buffer messageStart
      · rw [decodeNextMessage_cutOff messageOut deflateNeeded hcut] at h
        injection h
      · rw [decodeNextMessage_incomplete messageOut deflateNeeded hscan hcut] at h
        injection h with h
        subst h
        exact Or.inr (Or.inl ⟨rfl, rfl, rfl, rfl⟩)
  | frame f size =>
      by_cases hsize : f.payload.length < 2 ^ 32
      · rw [decodeNextMessage_frame messageOut deflateNeeded hscan hsize] at h
        injection h with h
        exact Or.inr (Or.inr ⟨f, size, rfl, h.symm⟩)
      · rw [decodeNextMessage_oversized messageOut deflateNeeded ⟨f, size, hscan, by omega⟩] at h
        injection h

/-- The decoder moves on exactly when it has found a frame. -/
theorem decodeNextMessage_moves {messageOut : Bytes} {deflateNeeded : Bool} {decoded : Decoded}
    (h : decodeNextMessage buffer messageStart messageOut deflateNeeded = .ok decoded)
    (hmessage : decoded.messageState ≠ .error) (hsome : decoded.messageState ≠ .noMessage) :
    messageStart < decoded.messageStart := by
  rcases decodeNextMessage_ok h with ⟨-, rfl⟩ | ⟨-, hnone, -⟩ | ⟨f, size, hscan, rfl⟩
  · exact absurd rfl hmessage
  · exact absurd hnone hsome
  · have := (scan_size hscan).1
    dsimp only
    omega

theorem decodeNextMessage_start_le {messageOut : Bytes} {deflateNeeded : Bool} {decoded : Decoded}
    (h : decodeNextMessage buffer messageStart messageOut deflateNeeded = .ok decoded) :
    messageStart ≤ decoded.messageStart := by
  rcases decodeNextMessage_ok h with ⟨-, rfl⟩ | ⟨-, -, -, hstart⟩ | ⟨f, size, -, rfl⟩
  · exact Nat.le_refl _
  · exact Nat.le_of_eq hstart.symm
  · exact Nat.le_add_right _ _

end Outcome

/-! ### Successive calls -/

/-- `calls` successive calls from `messageStart` stay within the buffer: none of them faults,
`numBytesDecoded` stays within the buffer and never decreases, and an incomplete frame yields
`NoMessage` and stays where it is. The caller's variables may hold anything. -/
def CallsSafe (buffer : Bytes) : Nat → Nat → Prop
  | 0, messageStart => messageStart ≤ buffer.length
  | calls + 1, messageStart =>
      messageStart ≤ buffer.length ∧
      ∀ messageOut deflateNeeded, ∃ decoded,
        decodeNextMessage buffer messageStart messageOut deflateNeeded = .ok decoded ∧
        messageStart ≤ decoded.messageStart ∧
        (scan (buffer.drop messageStart) = .incomplete →
          decoded.messageState = .noMessage ∧ decoded.messageStart = messageStart) ∧
        CallsSafe buffer calls decoded.messageStart

/-- What the decoder gets right: the frame at `messageStart` has neither a length field that is cut
off behind another frame nor a payload of `2 ^ 32` bytes. -/
def Readable (buffer : Bytes) (messageStart : Nat) : Prop :=
  ¬ LengthCutOff buffer messageStart ∧ ¬ Oversized buffer messageStart

/-- From any frame boundary, the calls are safe exactly if every frame they start at is readable. -/
theorem callsSafe_boundary_iff (buffer : Bytes) (calls start : Nat) :
    CallsSafe buffer calls (boundary buffer start) ↔
      ∀ k < calls, Readable buffer (boundary buffer (start + k)) := by
  induction calls generalizing start with
  | zero => simp [CallsSafe, boundary_le_length]
  | succ calls ih =>
      have hrest : (∀ k < calls + 1, Readable buffer (boundary buffer (start + k))) ↔
          Readable buffer (boundary buffer start) ∧
            ∀ k < calls, Readable buffer (boundary buffer (start + 1 + k)) := by
        rw [Nat.forall_lt_succ_left]
        simp only [Nat.add_zero, Nat.add_assoc, Nat.add_comm 1]
      rw [hrest, CallsSafe, ← ih (start + 1)]
      constructor
      · rintro ⟨-, hcall⟩
        obtain ⟨decoded, hdecode, -, -, hnext⟩ := hcall [] false
        have hreadable : Readable buffer (boundary buffer start) := by
          constructor
          · intro hcut
            rw [decodeNextMessage_cutOff [] false hcut] at hdecode
            simp at hdecode
          · intro hover
            rw [decodeNextMessage_oversized [] false hover] at hdecode
            simp at hdecode
        refine ⟨hreadable, ?_⟩
        have hstart : decoded.messageStart = boundary buffer (start + 1) := by
          rw [boundary]
          split
          · rename_i f size hscan
            have hsize : f.payload.length < 2 ^ 32 := by
              by_contra hge
              exact hreadable.2 ⟨f, size, hscan, by omega⟩
            rw [decodeNextMessage_frame [] false hscan hsize] at hdecode
            cases hdecode
            rfl
          · rename_i hnot
            cases hscan : scan (buffer.drop (boundary buffer start)) with
            | frame f size => exact absurd hscan (hnot f size)
            | invalid =>
                rw [decodeNextMessage_invalid [] false hscan] at hdecode
                cases hdecode
                rfl
            | incomplete =>
                rw [decodeNextMessage_incomplete [] false hscan hreadable.1] at hdecode
                cases hdecode
                rfl
        rwa [← hstart]
      · rintro ⟨hreadable, hnext⟩
        refine ⟨boundary_le_length buffer start, fun messageOut deflateNeeded => ?_⟩
        rw [boundary] at hnext
        cases hscan : scan (buffer.drop (boundary buffer start)) with
        | frame f size =>
            have hsize : f.payload.length < 2 ^ 32 := by
              by_contra hge
              exact hreadable.2 ⟨f, size, hscan, by omega⟩
            rw [hscan] at hnext
            exact ⟨_, decodeNextMessage_frame messageOut deflateNeeded hscan hsize,
              Nat.le_add_right _ _, by simp, hnext⟩
        | invalid =>
            rw [hscan] at hnext
            exact ⟨_, decodeNextMessage_invalid messageOut deflateNeeded hscan, Nat.le_refl _, by simp,
              hnext⟩
        | incomplete =>
            rw [hscan] at hnext
            exact ⟨_, decodeNextMessage_incomplete messageOut deflateNeeded hscan hreadable.1,
              Nat.le_refl _, fun _ => ⟨rfl, rfl⟩, hnext⟩

/-- **Memory safety of the decoder.** Any number of calls over any buffer is safe exactly if no frame
they start at has a length field cut off behind another frame or a payload of `2 ^ 32` bytes. -/
theorem callsSafe_iff (buffer : Bytes) (calls : Nat) :
    CallsSafe buffer calls 0 ↔ ∀ k < calls, Readable buffer (boundary buffer k) := by
  simpa [boundary] using callsSafe_boundary_iff buffer calls 0

/-- Behind a seven-byte frame, the two leading bytes of a frame with a 16-bit length make the second
call read past the end of the buffer. -/
theorem not_callsSafe_of_cutOff_length :
    ¬ CallsSafe [0x81, 0x05, 0x48, 0x65, 0x6c, 0x6c, 0x6f, 0x81, 0x7e] 2 0 := by
  intro hsafe
  obtain ⟨-, hfirst⟩ := hsafe
  obtain ⟨decoded, hdecode, -, -, -, hsecond⟩ := hfirst [] false
  have hstart : decoded.messageStart = 7 := by
    cases hdecode
    rfl
  rw [hstart] at hsecond
  obtain ⟨again, hagain, -⟩ := hsecond [] false
  cases hagain

end Seasocks.HybiPacketDecoder
