import Mathlib.Data.List.Basic

/-!
# Base64

The encoding of RFC 4648: four letters of the alphabet are the twenty-four bits of three bytes, and only
the last group may end in padding. The decoder lets the bits that a padded group has to spare be anything.
-/

namespace Base64

def alphabet : List UInt8 :=
  "ABCDEFGHIJKLMNOPQRSTUVWXYZabcdefghijklmnopqrstuvwxyz0123456789+/".toList.map
    fun c => UInt8.ofNat c.toNat

/-- The character `=`. -/
def pad : UInt8 := 61

/-- The six bits a letter stands for. -/
def sextet (letter : UInt8) : Option Nat := alphabet.idxOf? letter

/-- The letter for six bits. -/
def letter (v : Nat) : UInt8 := alphabet.getD v 0

/-- The missing bits of a last group are zero. -/
def encode : List UInt8 → List UInt8
  | [] => []
  | [b0] => [letter (b0.toNat / 4), letter (b0.toNat % 4 * 16), pad, pad]
  | [b0, b1] =>
      [letter (b0.toNat / 4), letter (b0.toNat % 4 * 16 + b1.toNat / 16), letter (b1.toNat % 16 * 4), pad]
  | b0 :: b1 :: b2 :: rest =>
      letter (b0.toNat / 4) :: letter (b0.toNat % 4 * 16 + b1.toNat / 16)
        :: letter (b1.toNat % 16 * 4 + b2.toNat / 64) :: letter (b2.toNat % 64) :: encode rest

def first (v0 v1 : Nat) : UInt8 := UInt8.ofNat (v0 * 4 + v1 / 16)

def second (v1 v2 : Nat) : UInt8 := UInt8.ofNat (v1 % 16 * 16 + v2 / 4)

def third (v2 v3 : Nat) : UInt8 := UInt8.ofNat (v2 % 4 * 64 + v3)

def decode : List UInt8 → Option (List UInt8)
  | [] => some []
  | c0 :: c1 :: c2 :: c3 :: rest => do
      let v0 ← sextet c0
      let v1 ← sextet c1
      if rest = [] ∧ c2 = pad ∧ c3 = pad then
        return [first v0 v1]
      else
        let v2 ← sextet c2
        if rest = [] ∧ c3 = pad then
          return [first v0 v1, second v1 v2]
        else
          let v3 ← sextet c3
          let data ← decode rest
          return first v0 v1 :: second v1 v2 :: third v2 v3 :: data
  | _ => none

theorem sextet_pad : sextet pad = none := by decide +kernel

theorem sextet_letter {v : Nat} (hv : v < 64) : sextet (letter v) = some v := by
  have hall : ∀ v : Fin 64, sextet (letter v) = some v.val := by decide +kernel
  exact hall ⟨v, hv⟩

theorem mem_alphabet_of_sextet {letter : UInt8} {v : Nat} (h : sextet letter = some v) :
    letter ∈ alphabet := by
  by_contra hnot
  rw [sextet, List.idxOf?_eq_none_iff.mpr hnot] at h
  cases h

theorem ne_pad_of_sextet {letter : UInt8} {v : Nat} (h : sextet letter = some v) : letter ≠ pad := by
  rintro rfl
  rw [sextet_pad] at h
  cases h

variable {c0 c1 c2 c3 : UInt8} {v0 v1 v2 v3 : Nat}

/-- A last group of one byte. -/
theorem decode_one (h0 : sextet c0 = some v0) (h1 : sextet c1 = some v1) :
    decode [c0, c1, pad, pad] = some [first v0 v1] := by
  rw [decode, h0, h1]
  simp

/-- A last group of two bytes. -/
theorem decode_two (h0 : sextet c0 = some v0) (h1 : sextet c1 = some v1)
    (h2 : sextet c2 = some v2) :
    decode [c0, c1, c2, pad] = some [first v0 v1, second v1 v2] := by
  rw [decode, h0, h1, h2]
  simp [ne_pad_of_sextet h2]

/-- A group of three bytes. -/
theorem decode_three {rest : List UInt8} (h0 : sextet c0 = some v0) (h1 : sextet c1 = some v1)
    (h2 : sextet c2 = some v2) (h3 : sextet c3 = some v3) :
    decode (c0 :: c1 :: c2 :: c3 :: rest) =
      (decode rest).map fun data => first v0 v1 :: second v1 v2 :: third v2 v3 :: data := by
  rw [decode, h0, h1, h2, h3]
  cases hrest : decode rest <;> simp [ne_pad_of_sextet h3]

theorem letter_mem {v : Nat} (hv : v < 64) : letter v ∈ alphabet :=
  mem_alphabet_of_sextet (sextet_letter hv)

/-! ### Encoding -/

section Encode

theorem ofNat_of_eq_toNat {n : Nat} {b : UInt8} (h : n = b.toNat) : UInt8.ofNat n = b := by
  rw [h, UInt8.ofNat_toNat]

variable (b0 b1 b2 : UInt8)

theorem firstIndex_lt : b0.toNat / 4 < 64 := Nat.div_lt_of_lt_mul b0.toNat_lt

theorem secondIndex_lt : b0.toNat % 4 * 16 + b1.toNat / 16 < 64 := by
  have := b1.toNat_lt
  omega

theorem thirdIndex_lt : b1.toNat % 16 * 4 + b2.toNat / 64 < 64 := by
  have := b2.toNat_lt
  omega

theorem fourthIndex_lt : b2.toNat % 64 < 64 := Nat.mod_lt _ (by decide)

theorem lastOfOne_lt : b0.toNat % 4 * 16 < 64 := by omega

theorem lastOfTwo_lt : b1.toNat % 16 * 4 < 64 := by omega

theorem first_eq {n : Nat} (hn : n < 16) : first (b0.toNat / 4) (b0.toNat % 4 * 16 + n) = b0 := by
  apply ofNat_of_eq_toNat
  omega

theorem second_eq (n : Nat) {m : Nat} (hm : m < 4) :
    second (n * 16 + b1.toNat / 16) (b1.toNat % 16 * 4 + m) = b1 := by
  have := b1.toNat_lt
  apply ofNat_of_eq_toNat
  omega

theorem third_eq (n : Nat) : third (n * 4 + b2.toNat / 64) (b2.toNat % 64) = b2 := by
  have := b2.toNat_lt
  apply ofNat_of_eq_toNat
  omega

theorem decode_encode (data : List UInt8) : decode (encode data) = some data := by
  fun_induction encode data with
  | case1 => rfl
  | case2 b0 =>
      rw [decode_one (sextet_letter (firstIndex_lt b0)) (sextet_letter (lastOfOne_lt b0))]
      exact congrArg (fun b => some [b]) (first_eq b0 (n := 0) (by decide))
  | case3 b0 b1 =>
      have hhigh : b1.toNat / 16 < 16 := Nat.div_lt_of_lt_mul b1.toNat_lt
      rw [decode_two (sextet_letter (firstIndex_lt b0)) (sextet_letter (secondIndex_lt b0 b1))
        (sextet_letter (lastOfTwo_lt b1)), first_eq b0 hhigh]
      exact congrArg (fun b => some [b0, b]) (second_eq b1 _ (m := 0) (by decide))
  | case4 b0 b1 b2 rest ih =>
      have hhigh : b1.toNat / 16 < 16 := Nat.div_lt_of_lt_mul b1.toNat_lt
      have hhigh' : b2.toNat / 64 < 4 := Nat.div_lt_of_lt_mul b2.toNat_lt
      rw [decode_three (sextet_letter (firstIndex_lt b0)) (sextet_letter (secondIndex_lt b0 b1))
        (sextet_letter (thirdIndex_lt b1 b2)) (sextet_letter (fourthIndex_lt b2)), ih, Option.map_some,
        first_eq b0 hhigh, second_eq b1 _ hhigh', third_eq]

end Encode

theorem encode_injective : Function.Injective encode := by
  intro data data' h
  have hdecode := decode_encode data
  rw [h, decode_encode] at hdecode
  exact (Option.some.inj hdecode).symm

theorem length_encode (data : List UInt8) : (encode data).length = 4 * ((data.length + 2) / 3) := by
  fun_induction encode data with
  | case1 => rfl
  | case2 => simp
  | case3 => simp
  | case4 b0 b1 b2 rest ih =>
      simp only [List.length_cons, ih]
      omega

/-- Padding stands at the end only, as many characters as the last group lacks bytes. -/
theorem encode_eq_letters (data : List UInt8) :
    ∃ letters, (∀ letter ∈ letters, letter ∈ alphabet) ∧
      encode data = letters ++ List.replicate ((3 - data.length % 3) % 3) pad := by
  fun_induction encode data with
  | case1 => exact ⟨[], by simp, rfl⟩
  | case2 b0 =>
      refine ⟨[letter (b0.toNat / 4), letter (b0.toNat % 4 * 16)], ?_, rfl⟩
      simp only [List.forall_mem_cons]
      exact ⟨letter_mem (firstIndex_lt b0), letter_mem (lastOfOne_lt b0), by simp⟩
  | case3 b0 b1 =>
      refine ⟨[letter (b0.toNat / 4), letter (b0.toNat % 4 * 16 + b1.toNat / 16),
        letter (b1.toNat % 16 * 4)], ?_, rfl⟩
      simp only [List.forall_mem_cons]
      exact ⟨letter_mem (firstIndex_lt b0), letter_mem (secondIndex_lt b0 b1),
        letter_mem (lastOfTwo_lt b1), by simp⟩
  | case4 b0 b1 b2 rest ih =>
      obtain ⟨letters, hletters, hrest⟩ := ih
      have hlength : (b0 :: b1 :: b2 :: rest).length % 3 = rest.length % 3 := by
        simp only [List.length_cons]
        omega
      rw [hlength, hrest]
      refine ⟨letter (b0.toNat / 4) :: letter (b0.toNat % 4 * 16 + b1.toNat / 16) ::
        letter (b1.toNat % 16 * 4 + b2.toNat / 64) :: letter (b2.toNat % 64) :: letters, ?_, rfl⟩
      simp only [List.forall_mem_cons]
      exact ⟨letter_mem (firstIndex_lt b0), letter_mem (secondIndex_lt b0 b1),
        letter_mem (thirdIndex_lt b1 b2), letter_mem (fourthIndex_lt b2), hletters⟩

/-! ### Decoding -/

/-- Four letters stand for one byte at least. -/
theorem length_le_of_decode {s data : List UInt8} (h : decode s = some data) :
    s.length ≤ 4 * data.length := by
  induction s using decode.induct generalizing data with
  | case1 =>
      exact Nat.zero_le _
  | case2 c0 c1 c2 c3 rest ih =>
      simp only [decode, Option.bind_eq_bind, Option.bind_eq_some_iff, Option.pure_def] at h
      obtain ⟨v0, -, v1, -, h⟩ := h
      split_ifs at h with hone htwo
      · obtain ⟨rfl, -, -⟩ := hone
        injection h with h
        simp [← h]
      · obtain ⟨rfl, -⟩ := htwo
        obtain ⟨v2, -, h⟩ := Option.bind_eq_some_iff.mp h
        injection h with h
        simp [← h]
      · obtain ⟨v2, -, h⟩ := Option.bind_eq_some_iff.mp h
        obtain ⟨v3, -, h⟩ := Option.bind_eq_some_iff.mp h
        obtain ⟨more, hmore, h⟩ := Option.bind_eq_some_iff.mp h
        injection h with h
        have hrest := ih hmore
        simp only [← h, List.length_cons]
        omega
  | case3 s hnil hcons =>
      rw [decode] at h
      · cases h
      · exact hnil
      · exact hcons

end Base64
