import Seasocks.HybiAccept
import Seasocks.Library.Base64

/-!
# Base64 of the handshake

`base64Encode` is the encoding of RFC 4648. The masks and shifts of a group are quotients and remainders
by powers of two; the `unsigned` index of the loop cannot pass over the end of data that is shorter than
its range, as the range leaves the remainder one by three.
-/

namespace Seasocks

open Base64

/-! ### One group -/

theorem base64Char_eq (index : UInt8) : base64Char index = letter index.toNat := rfl

/-- The bits of two numbers that do not overlap. -/
theorem or_eq_add {a b k : Nat} (hb : b < 2 ^ k) : a * 2 ^ k ||| b = a * 2 ^ k + b := by
  rw [← Nat.shiftLeft_eq, Nat.shiftLeft_add_eq_or_of_lt hb]

theorem toNat_shiftRight {shift : UInt8} {s : Nat} (hshift : shift.toNat = s) (hs : s < 8)
    (b : UInt8) : (b >>> shift).toNat = b.toNat / 2 ^ s := by
  rw [UInt8.toNat_shiftRight, hshift, Nat.mod_eq_of_lt hs, Nat.shiftRight_eq_div_pow]

/-- The `k` low bits of a byte. -/
theorem toNat_lowBits {mask : UInt8} {k : Nat} (hmask : mask.toNat = 2 ^ k - 1) (b : UInt8) :
    (b &&& mask).toNat = b.toNat % 2 ^ k := by
  rw [UInt8.toNat_and, hmask, Nat.and_two_pow_sub_one_eq_mod]

/-- The `k` low bits of a byte, moved up. -/
theorem toNat_lowBits_shiftLeft {mask shift : UInt8} {k s : Nat} (hmask : mask.toNat = 2 ^ k - 1)
    (hshift : shift.toNat = s) (hs : s < 8) (hks : k + s ≤ 8) (b : UInt8) :
    ((b &&& mask) <<< shift).toNat = b.toNat % 2 ^ k * 2 ^ s := by
  have hfits : b.toNat % 2 ^ k * 2 ^ s < 2 ^ 8 := by
    calc
      b.toNat % 2 ^ k * 2 ^ s < 2 ^ k * 2 ^ s :=
        Nat.mul_lt_mul_of_pos_right (Nat.mod_lt _ (Nat.two_pow_pos k)) (Nat.two_pow_pos s)
      _ = 2 ^ (k + s) := (Nat.pow_add 2 k s).symm
      _ ≤ 2 ^ 8 := Nat.pow_le_pow_right (by decide) hks
  rw [UInt8.toNat_shiftLeft, toNat_lowBits hmask, hshift, Nat.mod_eq_of_lt hs, Nat.shiftLeft_eq,
    Nat.mod_eq_of_lt hfits]

/-- The high bits of a byte, moved down. -/
theorem toNat_highBits_shiftRight {mask shift : UInt8} {s : Nat}
    (hmask : mask.toNat >>> s = 2 ^ (8 - s) - 1) (hshift : shift.toNat = s) (hs : s < 8)
    (b : UInt8) : ((b &&& mask) >>> shift).toNat = b.toNat / 2 ^ s := by
  have hfits : b.toNat / 2 ^ s < 2 ^ (8 - s) := by
    apply Nat.div_lt_of_lt_mul
    rw [← Nat.pow_add, Nat.add_sub_cancel' hs.le]
    exact b.toNat_lt
  rw [UInt8.toNat_shiftRight, hshift, Nat.mod_eq_of_lt hs, UInt8.toNat_and,
    Nat.shiftRight_and_distrib, hmask, Nat.and_two_pow_sub_one_eq_mod, Nat.shiftRight_eq_div_pow,
    Nat.mod_eq_of_lt hfits]

theorem toNat_firstIndex (b0 : UInt8) : (b0 >>> 2).toNat = b0.toNat / 4 :=
  toNat_shiftRight rfl (by decide) b0

theorem toNat_secondIndex (b0 b1 : UInt8) :
    (((b0 &&& 0x03) <<< 4) ||| ((b1 &&& 0xf0) >>> 4)).toNat =
      b0.toNat % 4 * 16 + b1.toNat / 16 := by
  have hlow : b1.toNat / 2 ^ 4 < 2 ^ 4 := Nat.div_lt_of_lt_mul b1.toNat_lt
  calc
    (((b0 &&& 0x03) <<< 4) ||| ((b1 &&& 0xf0) >>> 4)).toNat =
        b0.toNat % 2 ^ 2 * 2 ^ 4 + b1.toNat / 2 ^ 4 := by
      rw [UInt8.toNat_or, toNat_lowBits_shiftLeft (k := 2) (s := 4) rfl rfl (by decide) (by decide),
        toNat_highBits_shiftRight (s := 4) rfl rfl (by decide), or_eq_add hlow]
    _ = b0.toNat % 4 * 16 + b1.toNat / 16 := rfl

theorem toNat_thirdIndex (b1 b2 : UInt8) :
    (((b1 &&& 0x0f) <<< 2) ||| ((b2 &&& 0xc0) >>> 6)).toNat =
      b1.toNat % 16 * 4 + b2.toNat / 64 := by
  have hlow : b2.toNat / 2 ^ 6 < 2 ^ 2 := Nat.div_lt_of_lt_mul b2.toNat_lt
  calc
    (((b1 &&& 0x0f) <<< 2) ||| ((b2 &&& 0xc0) >>> 6)).toNat =
        b1.toNat % 2 ^ 4 * 2 ^ 2 + b2.toNat / 2 ^ 6 := by
      rw [UInt8.toNat_or, toNat_lowBits_shiftLeft (k := 4) (s := 2) rfl rfl (by decide) (by decide),
        toNat_highBits_shiftRight (s := 6) rfl rfl (by decide), or_eq_add hlow]
    _ = b1.toNat % 16 * 4 + b2.toNat / 64 := rfl

theorem toNat_fourthIndex (b2 : UInt8) : (b2 &&& 0x3f).toNat = b2.toNat % 64 :=
  toNat_lowBits (k := 6) rfl b2

/-- A missing byte counts as zero. -/
theorem toNat_lastOfOne (b0 : UInt8) : ((b0 &&& 0x03) <<< 4).toNat = b0.toNat % 4 * 16 :=
  toNat_lowBits_shiftLeft (k := 2) (s := 4) rfl rfl (by decide) (by decide) b0

theorem toNat_lastOfTwo (b1 : UInt8) : ((b1 &&& 0x0f) <<< 2).toNat = b1.toNat % 16 * 4 :=
  toNat_lowBits_shiftLeft (k := 4) (s := 2) rfl rfl (by decide) (by decide) b1

/-! ### The whole encoding -/

theorem base64Encode_eq (data : Bytes) : base64Encode data = encode data := by
  fun_induction base64Encode data with
  | case1 => rfl
  | case2 b0 =>
      simp only [base64Char_eq, toNat_firstIndex, toNat_lastOfOne]
      rfl
  | case3 b0 b1 =>
      simp only [base64Char_eq, toNat_firstIndex, toNat_secondIndex, toNat_lastOfTwo]
      rfl
  | case4 b0 b1 b2 rest ih =>
      simp only [base64Char_eq, toNat_firstIndex, toNat_secondIndex, toNat_thirdIndex, toNat_fourthIndex, ih]
      rfl

/-! ### The loop -/

/-- The index is a multiple of three, and so is the last number an `unsigned` holds: it reaches the end
of the data before it wraps. -/
theorem toNat_add_three {data : Bytes} {i : UInt32} (hdata : data.length < 2 ^ 32)
    (hi : i.toNat < data.length) (hthree : i.toNat % 3 = 0) :
    (i + 3).toNat = i.toNat + 3 := by
  rw [UInt32.toNat_add]
  apply Nat.mod_eq_of_lt
  have hconst : (3 : UInt32).toNat = 3 := rfl
  omega

theorem getElem?_of_drop {data rest : Bytes} {i k : Nat} (h : data.drop i = rest) :
    data[i + k]? = rest[k]? := by
  rw [← h, List.getElem?_drop]

theorem toNat_add_of_lt {data : Bytes} {i k : UInt32} (hdata : data.length < 2 ^ 32)
    (h : i.toNat + k.toNat < data.length) : (i + k).toNat = i.toNat + k.toNat := by
  rw [UInt32.toNat_add]
  apply Nat.mod_eq_of_lt
  omega

theorem base64EncodeLoop_eq {data : Bytes} (hdata : data.length < 2 ^ 32) (fuel : Nat) (i : UInt32)
    (output rest : Bytes) (hthree : i.toNat % 3 = 0) (hrest : data.drop i.toNat = rest)
    (hfuel : rest.length < fuel) :
    base64EncodeLoop data fuel i output = some (output ++ base64Encode rest) := by
  induction fuel generalizing i output rest with
  | zero => omega
  | succ fuel ih =>
      have hlength : data.length - i.toNat = rest.length := by
        rw [← hrest, List.length_drop]
      by_cases hend : rest = []
      · have hi : ¬ i.toNat < data.length := by
          rw [hend, List.length_nil] at hlength
          omega
        rw [base64EncodeLoop, if_neg hi, hend, base64Encode, List.append_nil]
      · have hi : i.toNat < data.length := by
          have := List.length_pos_iff.mpr hend
          omega
        have hnext := toNat_add_three hdata hi hthree
        have hturn : ∀ group, base64EncodeLoop data fuel (i + 3) (output ++ group) =
            some (output ++ (group ++ base64Encode (rest.drop 3))) := by
          intro group
          rw [ih (i + 3) (output ++ group) (rest.drop 3), List.append_assoc]
          · rw [hnext]
            omega
          · rw [hnext, ← List.drop_drop, hrest]
          · have := List.length_pos_iff.mpr hend
            rw [List.length_drop]
            omega
        have h0 : data[i.toNat]? = rest[0]? := getElem?_of_drop (k := 0) hrest
        have h1 : 1 < rest.length → data[(i + 1).toNat]? = rest[1]? := by
          intro hmore
          rw [toNat_add_of_lt hdata (by rw [show (1 : UInt32).toNat = 1 from rfl]; omega)]
          exact getElem?_of_drop hrest
        have h2 : 2 < rest.length → data[(i + 2).toNat]? = rest[2]? := by
          intro hmore
          rw [toNat_add_of_lt hdata (by rw [show (2 : UInt32).toNat = 2 from rfl]; omega)]
          exact getElem?_of_drop hrest
        rw [base64EncodeLoop, if_pos hi]
        simp only [hlength, h0]
        generalize data[(i + 1).toNat]? = second at h1 ⊢
        generalize data[(i + 2).toNat]? = third at h2 ⊢
        match rest, hend with
        | [b0], _ => simp [hturn, base64Encode]
        | [b0, b1], _ =>
            rw [h1 (by simp)]
            simp [hturn, base64Encode]
        | b0 :: b1 :: b2 :: rest, _ =>
            rw [h1 (by simp), h2 (by simp)]
            simp [hturn, base64Encode]

/-- For data shorter than the range of the index the loop ends, its result is Base64, and the decoder
reads the data back from it. -/
theorem base64Encode_roundTrip {data : Bytes} (h : data.length < 2 ^ 32) :
    (∀ fuel > data.length, base64EncodeLoop data fuel 0 [] = some (base64Encode data)) ∧
      (base64Encode data).length = 4 * ((data.length + 2) / 3) ∧
      (∃ letters, (∀ letter ∈ letters, letter ∈ alphabet) ∧
        base64Encode data = letters ++ List.replicate ((3 - data.length % 3) % 3) pad) ∧
      decode (base64Encode data) = some data ∧
      ∀ other, base64Encode other = base64Encode data → other = data := by
  have hloop : ∀ fuel > data.length, base64EncodeLoop data fuel 0 [] = some (base64Encode data) :=
    fun fuel hfuel => base64EncodeLoop_eq h fuel 0 [] data rfl rfl hfuel
  simp only [base64Encode_eq] at hloop ⊢
  exact ⟨hloop, length_encode data, encode_eq_letters data, decode_encode data,
    fun other hother => encode_injective hother⟩

theorem base64Encode_roundTrip_two :
    base64Encode (ascii "hi") = ascii "aGk=" ∧ decode (ascii "aGk=") = some (ascii "hi") := by
  have hencoded : base64Encode (ascii "hi") = ascii "aGk=" := by decide +kernel
  have h := (@base64Encode_roundTrip (ascii "hi") (by decide +kernel)).2.2.2.1
  rw [hencoded] at h
  exact ⟨hencoded, h⟩

end Seasocks
