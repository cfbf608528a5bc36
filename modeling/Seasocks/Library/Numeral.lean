import Mathlib.Algebra.Order.Ring.Nat
import Mathlib.Data.List.Induction
import Mathlib.Tactic.Ring
import Seasocks.Library.Hexadecimal

/-!
# Numerals

A number written in a base up to sixteen, and what such a text means when it is read in another base.
-/

namespace Numeral

open Hexadecimal

/-- The value of a digit, in either case. -/
def digit (c : UInt8) : Nat := (hexValue c).getD 0

/-- The value of a text of digits. -/
def value (base : Nat) (text : List UInt8) : Nat :=
  text.foldl (fun value c => value * base + digit c) 0

/-- A number in a base. -/
def numeral (base n : Nat) : List UInt8 := (Nat.toDigits base n).map fun c => UInt8.ofNat c.toNat

def digitByte (d : Nat) : UInt8 := UInt8.ofNat d.digitChar.toNat

@[simp]
theorem value_nil (base : Nat) : value base [] = 0 := rfl

theorem value_append (base : Nat) (text : List UInt8) (c : UInt8) :
    value base (text ++ [c]) = value base text * base + digit c := by
  rw [value, List.foldl_append]
  rfl

theorem value_singleton (base : Nat) (c : UInt8) : value base [c] = digit c := by
  rw [value, List.foldl_cons, List.foldl_nil, Nat.zero_mul, Nat.zero_add]

theorem digit_digitByte {d : Nat} (h : d < 16) : digit (digitByte d) = d := by
  have hall : ∀ d : Fin 16, digit (digitByte d.val) = d.val := by decide
  exact hall ⟨d, h⟩

theorem digit_lt (c : UInt8) : digit c < 16 := by
  rw [digit, hexValue]
  have := c.toNat_lt
  split_ifs with hdec hupper hlower
  · have := UInt8.le_iff_toNat_le.mp hdec.2
    have : (57 : UInt8).toNat = 57 := rfl
    rw [Option.getD_some]
    omega
  · have := UInt8.le_iff_toNat_le.mp hupper.2
    have : (70 : UInt8).toNat = 70 := rfl
    rw [Option.getD_some]
    omega
  · have := UInt8.le_iff_toNat_le.mp hlower.2
    have : (102 : UInt8).toNat = 102 := rfl
    rw [Option.getD_some]
    omega
  · exact Nat.zero_lt_succ _

/-! ### Writing a number and reading it -/

variable {base n : Nat}

theorem numeral_of_lt (h : n < base) : numeral base n = [digitByte n] := by
  rw [numeral, Nat.toDigits_of_lt_base h]
  rfl

theorem numeral_of_le (hbase : 1 < base) (h : base ≤ n) :
    numeral base n = numeral base (n / base) ++ [digitByte (n % base)] := by
  rw [numeral, Nat.toDigits_of_base_le hbase h, List.map_append]
  rfl

/-- Digits come off the end. -/
theorem numeral_induction {p : Nat → List UInt8 → Prop} (hbase : 1 < base)
    (hsmall : ∀ n < base, p n [digitByte n])
    (hmore : ∀ n, base ≤ n → p (n / base) (numeral base (n / base)) →
      p n (numeral base (n / base) ++ [digitByte (n % base)])) (n : Nat) : p n (numeral base n) := by
  induction n using Nat.strongRecOn with
  | ind n ih =>
      by_cases hlt : n < base
      · rw [numeral_of_lt hlt]
        exact hsmall n hlt
      · have hle : base ≤ n := Nat.le_of_not_lt hlt
        rw [numeral_of_le hbase hle]
        exact hmore n hle (ih _ (Nat.div_lt_self (by omega) hbase))

theorem value_numeral (hbase : 1 < base) (hsixteen : base ≤ 16) (n : Nat) :
    value base (numeral base n) = n := by
  apply numeral_induction (p := fun n text => value base text = n) hbase
  · intro n hlt
    exact (value_singleton base _).trans (digit_digitByte (hlt.trans_le hsixteen))
  · intro n _ ih
    have hmod : n % base < 16 := (Nat.mod_lt n (Nat.zero_lt_of_lt hbase)).trans_le hsixteen
    rw [value_append, ih, digit_digitByte hmod]
    exact Nat.div_add_mod' n base

theorem exists_digitByte_of_mem (hbase : 1 < base) (n : Nat) :
    ∀ c ∈ numeral base n, ∃ d < base, c = digitByte d := by
  apply numeral_induction (p := fun _ text => ∀ c ∈ text, ∃ d < base, c = digitByte d) hbase
  · intro n hlt c hc
    exact ⟨n, hlt, List.mem_singleton.mp hc⟩
  · intro n _ ih c hc
    rcases List.mem_append.mp hc with hc | hc
    · exact ih c hc
    · exact ⟨n % base, Nat.mod_lt n (by omega), List.mem_singleton.mp hc⟩

theorem numeral_ne_nil (base n : Nat) : numeral base n ≠ [] := by
  rw [numeral, ne_eq, List.map_eq_nil_iff]
  exact Nat.toDigits_ne_nil

/-- Only zero has a zero in front. -/
theorem head_numeral (hbase : 1 < base) (hsixteen : base ≤ 16) (n : Nat) (hn : 0 < n) :
    (numeral base n).head? ≠ some 48 := by
  revert hn
  apply numeral_induction (p := fun n text => 0 < n → text.head? ≠ some 48) hbase
  · intro n hlt hn
    have hall : ∀ d : Fin 16, 0 < d.val → [digitByte d.val].head? ≠ some 48 := by decide
    exact hall ⟨n, by omega⟩ hn
  · intro n hle ih _
    rw [List.head?_append_of_ne_nil _ (numeral_ne_nil _ _)]
    exact ih (Nat.div_pos hle (by omega))

/-! ### The same text in base ten and in base sixteen -/

/-- A digit makes more of a bigger base. -/
theorem value_ten_le (text : List UInt8) : value 10 text ≤ value 16 text := by
  induction text using List.reverseRecOn with
  | nil => exact Nat.le_refl _
  | append_singleton text c ih =>
      rw [value_append, value_append]
      omega

theorem value_lt_pow (text : List UInt8) : value 16 text < 16 ^ text.length := by
  induction text using List.reverseRecOn with
  | nil => exact Nat.one_pos
  | append_singleton text c ih =>
      have := digit_lt c
      rw [value_append, List.length_append, List.length_singleton, pow_succ]
      omega

theorem value_append_append (base : Nat) (text more : List UInt8) :
    value base (text ++ more) = value base text * base ^ more.length + value base more := by
  induction more using List.reverseRecOn with
  | nil => rw [List.append_nil, List.length_nil, pow_zero, mul_one, value_nil, Nat.add_zero]
  | append_singleton more c ih =>
      rw [← List.append_assoc, value_append, ih, value_append, List.length_append, List.length_singleton,
        pow_succ]
      ring

/-- The digits of an exponent in base sixteen are small against the power of two it stands for. -/
theorem value_lt_two_pow (text : List UInt8) (h : ∀ c ∈ text, digit c < 10) :
    value 16 text < 2 ^ value 10 text := by
  induction text using List.reverseRecOn with
  | nil => exact Nat.one_pos
  | append_singleton text c ih =>
      have hc := h c (List.mem_append_right _ (List.mem_singleton_self c))
      have ih := ih fun d hd => h d (List.mem_append_left _ hd)
      rw [value_append, value_append]
      rcases Nat.eq_zero_or_pos (value 10 text) with hzero | hpos
      · rw [hzero, pow_zero] at ih
        rw [hzero, Nat.lt_one_iff.mp ih, Nat.zero_mul, Nat.zero_add]
        exact Nat.lt_two_pow_self
      · calc value 16 text * 16 + digit c
            < 2 ^ value 10 text * 16 := by omega
          _ = 2 ^ (value 10 text + 4) := (pow_add 2 (value 10 text) 4).symm
          _ ≤ 2 ^ (value 10 text * 10 + digit c) := Nat.pow_le_pow_right (by omega) (by omega)

/-- A number in scientific notation is not what its text is in base sixteen. -/
theorem scientific_ne (whole exponent : List UInt8) (hexponent : ∀ c ∈ exponent, digit c < 10) :
    value 10 whole * 10 ^ value 10 exponent ≠
      (value 16 whole * 16 + 14) * 16 ^ exponent.length + value 16 exponent := by
  intro heq
  -- both sides are multiples of a power of two that the exponent is too small for
  obtain ⟨bits, hbits⟩ : ∃ bits, bits = min (value 10 exponent) (4 * exponent.length) := ⟨_, rfl⟩
  have hsixteen : 16 ^ exponent.length = 2 ^ (4 * exponent.length) := (pow_mul 2 4 exponent.length).symm
  have hten : 2 ^ bits ∣ value 10 whole * 10 ^ value 10 exponent := by
    have hpow : 2 ^ bits ∣ 2 ^ value 10 exponent := pow_dvd_pow 2 (by omega)
    exact Dvd.dvd.mul_left (hpow.trans (pow_dvd_pow_of_dvd (by decide) _)) _
  have hhigh : 2 ^ bits ∣ (value 16 whole * 16 + 14) * 16 ^ exponent.length := by
    rw [hsixteen]
    exact Dvd.dvd.mul_left (pow_dvd_pow 2 (by omega)) _
  have hlow : 2 ^ bits ∣ value 16 exponent := (Nat.dvd_add_right hhigh).mp (heq ▸ hten)
  have hlt : value 16 exponent < 2 ^ bits := by
    rcases le_total (value 10 exponent) (4 * exponent.length) with hle | hle
    · rw [hbits, min_eq_left hle]
      exact value_lt_two_pow exponent hexponent
    · rw [hbits, min_eq_right hle, ← hsixteen]
      exact value_lt_pow exponent
  have hzero : value 16 exponent = 0 := Nat.eq_zero_of_dvd_of_lt hlow hlt
  have hexp : value 10 exponent = 0 := Nat.le_zero.mp (hzero ▸ value_ten_le exponent)
  have hwhole := value_ten_le whole
  have hscale : value 16 whole * 16 + 14 ≤ (value 16 whole * 16 + 14) * 16 ^ exponent.length :=
    Nat.le_mul_of_pos_right _ (pow_pos (by omega) _)
  rw [hexp, hzero, pow_zero] at heq
  omega

end Numeral
