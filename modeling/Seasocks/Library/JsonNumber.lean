import Mathlib.Algebra.Order.Field.Basic
import Mathlib.Algebra.Order.Ring.Rat
import Mathlib.Data.List.TakeWhile
import Seasocks.Library.Numeral

/-!
# JSON numbers

The numbers of RFC 8259: a sign, digits without a needless zero in front, a fraction and an exponent.
-/

namespace JsonText

open Numeral

def isDigit (c : UInt8) : Bool := 48 ≤ c && c ≤ 57

/-- The digits behind a point, when there are any. -/
def readFraction : List UInt8 → List UInt8 × List UInt8
  | [] => ([], [])
  | c :: text =>
      if c = 46 ∧ text.takeWhile isDigit ≠ [] then (text.takeWhile isDigit, text.dropWhile isDigit)
      else ([], c :: text)

/-- The power of ten, when there is one. -/
def readExponent : List UInt8 → Int × List UInt8
  | [] => (0, [])
  | c :: text =>
      let unsigned := if text.head? = some 43 ∨ text.head? = some 45 then text.tail else text
      let digits := unsigned.takeWhile isDigit
      if (c = 101 ∨ c = 69) ∧ digits ≠ [] then
        (if text.head? = some 45 then -(value 10 digits : Int) else value 10 digits,
          unsigned.dropWhile isDigit)
      else (0, c :: text)

def readUnsigned (text : List UInt8) : Option (ℚ × List UInt8) :=
  let whole := if text.head? = some 48 then [48] else text.takeWhile isDigit
  if whole = [] then none
  else
    let fraction := readFraction (text.drop whole.length)
    let exponent := readExponent fraction.2
    some ((value 10 (whole ++ fraction.1) : ℚ) * 10 ^ (exponent.1 - fraction.1.length), exponent.2)

def readNumber : List UInt8 → Option (ℚ × List UInt8)
  | [] => none
  | c :: text =>
      if c = 45 then (readUnsigned text).map fun number => (-number.1, number.2)
      else readUnsigned (c :: text)

/-! ### What follows a value -/

def isSpace (c : UInt8) : Bool := c == 32 || c == 9 || c == 10 || c == 13

/-- The end of the text, or what ends a value inside an array or an object. -/
def Delimited (rest : List UInt8) : Prop := ∀ c, rest.head? = some c → c = 44 ∨ c = 93 ∨ c = 125

/-- Something that cannot follow a value. -/
def Stuck (rest : List UInt8) : Prop :=
  ∃ c more, rest = c :: more ∧ isSpace c = false ∧ c ≠ 44 ∧ c ≠ 93 ∧ c ≠ 125

theorem Delimited.nil : Delimited [] := by
  intro c h
  cases h

theorem Delimited.cons {c : UInt8} (h : c = 44 ∨ c = 93 ∨ c = 125) (rest : List UInt8) :
    Delimited (c :: rest) := by
  intro d hd
  cases hd
  exact h

/-! ### Digits -/

variable {rest : List UInt8}

theorem isDigit_digitByte {d : Nat} (h : d < 16) : isDigit (digitByte d) = decide (d < 10) := by
  have hall : ∀ d : Fin 16, isDigit (digitByte d.val) = decide (d.val < 10) := by decide
  exact hall ⟨d, h⟩

theorem not_isDigit_head (h : Delimited rest) : ∀ c, rest.head? = some c → isDigit c = false := by
  intro c hc
  rcases h c hc with rfl | rfl | rfl <;> rfl

/-- Digits end where something else begins. -/
theorem takeWhile_digits {digits : List UInt8} (hdigits : ∀ c ∈ digits, isDigit c = true)
    (hrest : ∀ c, rest.head? = some c → isDigit c = false) :
    (digits ++ rest).takeWhile isDigit = digits ∧ (digits ++ rest).dropWhile isDigit = rest := by
  rw [List.takeWhile_append_of_pos hdigits, List.dropWhile_append_of_pos hdigits]
  cases rest with
  | nil => simp
  | cons c rest =>
      have hc : ¬isDigit c = true := by simp [hrest c rfl]
      rw [List.takeWhile_cons_of_neg hc, List.dropWhile_cons_of_neg hc, List.append_nil]
      exact ⟨rfl, rfl⟩

theorem readFraction_of_ne (h : rest.head? ≠ some 46) : readFraction rest = ([], rest) := by
  cases rest with
  | nil => rfl
  | cons c rest =>
      rw [readFraction, if_neg]
      rintro ⟨rfl, -⟩
      exact h rfl

theorem readExponent_of_ne (h : ∀ c, rest.head? = some c → c ≠ 101 ∧ c ≠ 69) :
    readExponent rest = (0, rest) := by
  cases rest with
  | nil => rfl
  | cons c rest =>
      rw [readExponent, if_neg]
      rintro ⟨rfl | rfl, -⟩
      · exact (h _ rfl).1 rfl
      · exact (h _ rfl).2 rfl

theorem readExponent_delimited (h : Delimited rest) : readExponent rest = (0, rest) := by
  apply readExponent_of_ne
  intro c hhead
  rcases h c hhead with rfl | rfl | rfl <;> decide

/-- Digits that end where something else begins, but for a point. -/
theorem readUnsigned_cut {digits : List UInt8} (hne : digits ≠ [])
    (hdigits : ∀ c ∈ digits, isDigit c = true) (hzero : digits.head? = some 48 → digits = [48])
    (hrest : ∀ c, rest.head? = some c → isDigit c = false) (hpoint : rest.head? ≠ some 46) :
    readUnsigned (digits ++ rest) =
      some ((value 10 digits : ℚ) * 10 ^ (readExponent rest).1, (readExponent rest).2) := by
  have hwhole : (if (digits ++ rest).head? = some 48 then [48] else (digits ++ rest).takeWhile isDigit) =
      digits := by
    rw [List.head?_append_of_ne_nil _ hne]
    split_ifs with hhead
    · exact (hzero hhead).symm
    · exact (takeWhile_digits hdigits hrest).1
  rw [readUnsigned]
  dsimp only
  rw [hwhole, if_neg hne, List.drop_left, readFraction_of_ne hpoint, List.append_nil, List.length_nil,
    Nat.cast_zero, sub_zero]

theorem Delimited.no_point (h : Delimited rest) : rest.head? ≠ some 46 := by
  intro hhead
  rcases h _ hhead with hc | hc | hc <;> revert hc <;> decide

/-- A number without fraction or exponent. -/
theorem readUnsigned_digits {digits : List UInt8} (hne : digits ≠ [])
    (hdigits : ∀ c ∈ digits, isDigit c = true) (hzero : digits.head? = some 48 → digits = [48])
    (hrest : Delimited rest) : readUnsigned (digits ++ rest) = some ((value 10 digits : ℚ), rest) := by
  rw [readUnsigned_cut hne hdigits hzero (not_isDigit_head hrest) hrest.no_point,
    readExponent_delimited hrest, zpow_zero, mul_one]

/-- A number begins with a digit. -/
theorem readUnsigned_of_not_isDigit (h : ∀ c, rest.head? = some c → isDigit c = false) :
    readUnsigned rest = none := by
  have hnone : ∀ c ∈ ([] : List UInt8), isDigit c = true := by simp
  have hfirst := (takeWhile_digits hnone h).1
  have hhead : rest.head? ≠ some 48 := fun hhead => absurd (h 48 hhead) (by decide)
  rw [List.nil_append] at hfirst
  rw [readUnsigned, if_neg hhead, hfirst]
  rfl

theorem readUnsigned_nonneg {text more : List UInt8} {q : ℚ} (h : readUnsigned text = some (q, more)) :
    0 ≤ q := by
  rw [readUnsigned] at h
  dsimp only at h
  split_ifs at h
  all_goals
    cases h
    exact mul_nonneg (Nat.cast_nonneg _) (zpow_nonneg (by norm_num) _)

/-! ### Reading another base -/

/-- A digit in base sixteen, with small letters. -/
def IsHexDigit (c : UInt8) : Prop := ∃ d < 16, c = digitByte d

theorem IsHexDigit.inert {c : UInt8} (h : IsHexDigit c) :
    (isSpace c = false ∧ c ≠ 44 ∧ c ≠ 93 ∧ c ≠ 125) ∧ c ≠ 43 ∧ c ≠ 45 ∧ c ≠ 46 ∧ c ≠ 69 := by
  obtain ⟨d, hd, rfl⟩ := h
  have hall : ∀ d : Fin 16, (isSpace (digitByte d.val) = false ∧ digitByte d.val ≠ 44 ∧
      digitByte d.val ≠ 93 ∧ digitByte d.val ≠ 125) ∧ digitByte d.val ≠ 43 ∧ digitByte d.val ≠ 45 ∧
      digitByte d.val ≠ 46 ∧ digitByte d.val ≠ 69 := by
    decide
  exact hall ⟨d, hd⟩

theorem IsHexDigit.stuck {c : UInt8} (h : IsHexDigit c) (more : List UInt8) : Stuck (c :: more) :=
  ⟨c, more, rfl, h.inert.1⟩

theorem digit_lt_ten {c : UInt8} (h : isDigit c = true) : digit c < 10 := by
  simp only [isDigit, Bool.and_eq_true, decide_eq_true_eq] at h
  have hle := UInt8.le_iff_toNat_le.mp h.2
  have hnine : (57 : UInt8).toNat = 57 := rfl
  rw [digit, Hexadecimal.hexValue, if_pos h, Option.getD_some]
  omega

/-- Decimal digits that are a number from ten on in base sixteen. -/
theorem value_ten_lt {n : Nat} (hn : 10 ≤ n) (hdigits : ∀ c ∈ numeral 16 n, isDigit c = true) :
    value 10 (numeral 16 n) < n := by
  have hsixteen : 16 ≤ n := by
    by_contra hlt
    have hdigit := hdigits (digitByte n) (by simp [numeral_of_lt (Nat.lt_of_not_le hlt)])
    rw [isDigit_digitByte (by omega), decide_eq_true_iff] at hdigit
    omega
  have hle := value_ten_le (numeral 16 (n / 16))
  rw [value_numeral (by omega) (by omega)] at hle
  rw [numeral_of_le (by omega) hsixteen, value_append, digit_digitByte (Nat.mod_lt n (by omega))]
  omega

/-- The text of a number in base sixteen, cut behind its leading decimal digits. -/
theorem exists_cut (text : List UInt8) (htext : ∀ c ∈ text, IsHexDigit c) :
    ∃ digits tail, text = digits ++ tail ∧ (∀ c ∈ digits, isDigit c = true) ∧
      (∀ c, tail.head? = some c → isDigit c = false) ∧ ∀ c ∈ tail, IsHexDigit c := by
  refine ⟨text.takeWhile isDigit, text.dropWhile isDigit, List.takeWhile_append_dropWhile.symm, ?_, ?_, ?_⟩
  · exact fun c hc => List.mem_takeWhile_imp hc
  · intro c hc
    have := List.head?_dropWhile_not isDigit text
    rw [hc] at this
    simpa using this
  · exact fun c hc => htext c ((List.dropWhile_sublist _).mem hc)

/-- What ends the digits in front of a delimiter. -/
theorem not_isDigit_tail {tail : List UInt8} (htail : ∀ c, tail.head? = some c → isDigit c = false)
    (hrest : Delimited rest) : ∀ c, (tail ++ rest).head? = some c → isDigit c = false := by
  cases tail with
  | nil => exact not_isDigit_head hrest
  | cons c tail => exact htail

/-- An exponent of digits that come from base sixteen. -/
theorem readExponent_hexadecimal {tail : List UInt8} (htail : ∀ c ∈ tail, IsHexDigit c)
    (hrest : Delimited rest) :
    (∃ c more, (readExponent (101 :: (tail ++ rest))).2 = c :: more ∧ IsHexDigit c) ∨
      (∀ c ∈ tail, isDigit c = true) ∧ readExponent (101 :: (tail ++ rest)) = ((value 10 tail : Int), rest) := by
  have hsign : ∀ c, (tail ++ rest).head? = some c → c ≠ 43 ∧ c ≠ 45 := by
    intro c hc
    cases tail with
    | nil => rcases hrest c hc with rfl | rfl | rfl <;> decide
    | cons d tail =>
        obtain rfl := Option.some.inj hc
        have hinert := (htail d List.mem_cons_self).inert
        exact ⟨hinert.2.1, hinert.2.2.1⟩
  have hplus : (tail ++ rest).head? ≠ some 43 := fun hc => (hsign _ hc).1 rfl
  have hminus : (tail ++ rest).head? ≠ some 45 := fun hc => (hsign _ hc).2 rfl
  have hunsigned : ¬((tail ++ rest).head? = some 43 ∨ (tail ++ rest).head? = some 45) := by
    rintro (hc | hc)
    · exact hplus hc
    · exact hminus hc
  rw [readExponent, if_neg hunsigned, if_neg hminus]
  obtain ⟨digits, more, rfl, hdigits, hmore, hhex⟩ := exists_cut tail htail
  rw [List.append_assoc]
  obtain ⟨htake, hdrop⟩ := takeWhile_digits hdigits (not_isDigit_tail hmore hrest)
  rw [htake, hdrop]
  by_cases hempty : digits = []
  · apply Or.inl
    rw [if_neg fun hdone => hdone.2 hempty]
    exact ⟨101, _, rfl, 14, by omega, by decide⟩
  rw [if_pos ⟨Or.inl rfl, hempty⟩]
  cases more with
  | nil =>
      apply Or.inr
      rw [List.append_nil]
      exact ⟨hdigits, rfl⟩
  | cons c more => exact Or.inl ⟨c, _, rfl, hhex c List.mem_cons_self⟩

/-- A number of two digits or more is never what its text is in base sixteen: something is left over, or
it is another number. -/
theorem readUnsigned_hexadecimal {n : Nat} (hn : 10 ≤ n) (hrest : Delimited rest) {number : ℚ}
    {more : List UInt8} (h : readUnsigned (numeral 16 n ++ rest) = some (number, more)) :
    number ≠ n ∨ Stuck more := by
  obtain ⟨digits, tail, hcut, hdigits, htail, hhex⟩ :=
    exists_cut (numeral 16 n) (exists_digitByte_of_mem (by omega) n)
  have hvalue : value 16 (digits ++ tail) = n := hcut ▸ value_numeral (by omega) (by omega) n
  have hzero : (digits ++ tail).head? ≠ some 48 := hcut ▸ head_numeral (by omega) (by omega) n (by omega)
  have hboundary := not_isDigit_tail htail hrest
  have hpoint : (tail ++ rest).head? ≠ some 46 := by
    cases tail with
    | nil => exact hrest.no_point
    | cons c tail => simpa using (hhex c List.mem_cons_self).inert.2.2.2.1
  rw [hcut, List.append_assoc] at h
  by_cases hempty : digits = []
  · rw [hempty, List.nil_append, readUnsigned_of_not_isDigit hboundary] at h
    cases h
  have hhead : digits.head? = some 48 → digits = [48] := by
    rw [List.head?_append_of_ne_nil _ hempty] at hzero
    exact fun hhead => absurd hhead hzero
  rw [readUnsigned_cut hempty hdigits hhead hboundary hpoint] at h
  obtain ⟨rfl, rfl⟩ := Prod.mk.inj (Option.some.inj h)
  cases tail with
  | nil =>
      rw [List.append_nil] at hcut
      have hlt := value_ten_lt hn (hcut ▸ hdigits)
      rw [List.nil_append, readExponent_delimited hrest, zpow_zero, mul_one, ← hcut]
      exact Or.inl (by exact_mod_cast hlt.ne)
  | cons c tail =>
      have hc := hhex c List.mem_cons_self
      rw [List.cons_append]
      by_cases hexponent : c = 101
      · rw [hexponent] at hvalue ⊢
        rcases readExponent_hexadecimal (fun d hd => hhex d (List.mem_cons_of_mem _ hd)) hrest with
          ⟨d, left, hleft, hd⟩ | ⟨htail, heq⟩
        · rw [hleft]
          exact Or.inr (hd.stuck left)
        · apply Or.inl
          have hne := scientific_ne digits tail fun d hd => digit_lt_ten (htail d hd)
          have hsplit : (value 16 digits * 16 + 14) * 16 ^ tail.length + value 16 tail = n := by
            rw [← hvalue, List.append_cons, value_append_append, value_append]
            rfl
          rw [heq, zpow_natCast, ← hsplit]
          exact_mod_cast hne
      · rw [readExponent_of_ne]
        · exact Or.inr (hc.stuck _)
        · intro d hd
          obtain rfl := Option.some.inj hd
          exact ⟨hexponent, hc.inert.2.2.2.2⟩

end JsonText
