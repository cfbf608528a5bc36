import Mathlib.Data.List.TakeWhile
import Seasocks.Bytes

/-!
# String utilities

`StringUtil.cpp`, `StrCompare.h` and the one standard conversion the request path relies on,
`std::stoi`.
-/

namespace Seasocks

/-! ### Searching, splitting and replacing -/

/-- `std::string::find`: the position of the first occurrence of `needle`. -/
def find (needle : Bytes) : Bytes → Option Nat
  | [] => if needle = [] then some 0 else none
  | c :: s => if needle.isPrefixOf (c :: s) then some 0 else (find needle s).map (· + 1)

theorem isPrefixOf_of_find {needle s : Bytes} {i : Nat} (h : find needle s = some i) :
    needle.isPrefixOf (s.drop i) = true := by
  induction s generalizing i with
  | nil =>
      rw [find] at h
      split_ifs at h with hempty
      rw [hempty]
      rfl
  | cons c s ih =>
      rw [find] at h
      split_ifs at h with hbegins
      · injection h with h
        exact h ▸ hbegins
      · obtain ⟨j, hj, rfl⟩ := Option.map_eq_some_iff.mp h
        exact ih hj

theorem length_of_find {needle s : Bytes} {i : Nat} (h : find needle s = some i)
    (hneedle : needle ≠ []) : i + needle.length ≤ s.length := by
  have hbegins := (List.isPrefixOf_iff_prefix.mp (isPrefixOf_of_find h)).length_le
  have hpos := List.length_pos_iff.mpr hneedle
  rw [List.length_drop] at hbegins
  omega

theorem find_append {needle s : Bytes} {i : Nat} (h : find needle s = some i) (t : Bytes) :
    find needle (s ++ t) = some i := by
  induction s generalizing i with
  | nil =>
      rw [find] at h
      split_ifs at h with hempty
      rw [← h, hempty]
      cases t <;> rfl
  | cons c s ih =>
      have hfirst : needle.isPrefixOf (c :: (s ++ t)) = needle.isPrefixOf (c :: s) := by
        have hlength : needle.length ≤ (c :: s).length := by
          by_cases hneedle : needle = []
          · simp [hneedle]
          · have := length_of_find h hneedle
            omega
        rw [Bool.eq_iff_iff, List.isPrefixOf_iff_prefix, List.isPrefixOf_iff_prefix]
        constructor
        · intro hbegins
          exact List.prefix_of_prefix_length_le hbegins (List.prefix_append (c :: s) t) hlength
        · intro hbegins
          exact hbegins.trans (List.prefix_append (c :: s) t)
      rw [find] at h
      rw [List.cons_append, find, hfirst]
      split_ifs at h ⊢ with hbegins
      · exact h
      · obtain ⟨j, hj, rfl⟩ := Option.map_eq_some_iff.mp h
        rw [ih hj]
        rfl

/-- The loop of `split`, on the part of the input from `pos` on. -/
def splitFrom (splitChar : UInt8) : Nat → Bytes → List Bytes
  | 0, rest => [rest]
  | fuel + 1, rest =>
      match rest.idxOf? splitChar with
      | none => [rest]
      | some newPos => rest.take newPos :: splitFrom splitChar fuel (rest.drop (newPos + 1))

def split (input : Bytes) (splitChar : UInt8) : List Bytes :=
  if input = [] then [] else splitFrom splitChar input.length input

theorem idxOf?_append_cons {c : UInt8} {before : Bytes} (h : c ∉ before) (after : Bytes) :
    (before ++ c :: after).idxOf? c = some before.length := by
  rw [List.idxOf?_eq_some_iff]
  refine ⟨by simp, by simp, fun i hi => ?_⟩
  rw [List.getElem_append_left hi]
  exact fun heq => h (heq ▸ List.getElem_mem hi)

theorem splitFrom_eq_splitOn {splitChar : UInt8} {fuel : Nat} {rest : Bytes}
    (h : rest.length ≤ fuel) : splitFrom splitChar fuel rest = rest.splitOn splitChar := by
  induction fuel generalizing rest with
  | zero =>
      rw [List.length_eq_zero_iff.mp (Nat.le_zero.mp h), splitFrom, List.splitOn_nil]
  | succ fuel ih =>
      rw [splitFrom]
      by_cases hmem : splitChar ∈ rest
      · obtain ⟨part, more, rfl, hpart⟩ := List.eq_append_cons_of_mem hmem
        have hdrop : (part ++ splitChar :: more).drop (part.length + 1) = more := by
          rw [← List.drop_drop, List.drop_left]
          rfl
        have hmore : more.length ≤ fuel := by
          rw [List.length_append, List.length_cons] at h
          omega
        rw [idxOf?_append_cons hpart]
        dsimp only
        rw [hdrop, ih hmore, List.take_left, List.splitOn_append_cons_self_of_not_mem hpart]
      · rw [List.idxOf?_eq_none_iff.mpr hmem, List.splitOn_eq_singleton hmem]

/-- Only for the empty input is `split` not the usual splitting: it has no parts then, not one. -/
theorem split_eq_splitOn {input : Bytes} (h : input ≠ []) (splitChar : UInt8) :
    split input splitChar = input.splitOn splitChar := by
  rw [split, if_neg h, splitFrom_eq_splitOn le_rfl]

/-- The loop of `replace`, with the position it resumes its search at. -/
def replaceFrom (needle replacement : Bytes) : Nat → Bytes → Nat → Bytes
  | 0, string, _ => string
  | fuel + 1, string, pos =>
      match find needle (string.drop pos) with
      | none => string
      | some offset =>
          replaceFrom needle replacement fuel
            (string.take (pos + offset) ++ replacement
              ++ string.drop (pos + offset + needle.length))
            (pos + offset + replacement.length)

def replace (string needle replacement : Bytes) : Bytes :=
  if needle = [] then string else replaceFrom needle replacement (string.length + 1) string 0

def trimWhitespace (str : Bytes) : Bytes :=
  ((str.dropWhile isspace).reverse.dropWhile isspace).reverse

/-! ### Comparing without regard to case -/

def caseInsensitiveSame (lhs rhs : Bytes) : Bool :=
  lhs.length == rhs.length && (lhs.zip rhs).all fun pair => tolower pair.1 == tolower pair.2

theorem caseInsensitiveSame_iff {lhs rhs : Bytes} :
    caseInsensitiveSame lhs rhs = true ↔ lhs.map tolower = rhs.map tolower := by
  induction lhs generalizing rhs with
  | nil => cases rhs <;> simp [caseInsensitiveSame]
  | cons a lhs ih =>
      cases rhs with
      | nil => simp [caseInsensitiveSame]
      | cons b rhs =>
          have := @ih rhs
          simp only [caseInsensitiveSame, Bool.and_eq_true, beq_iff_eq] at this
          simp only [caseInsensitiveSame, List.length_cons, List.zip_cons_cons, List.all_cons,
            Bool.and_eq_true, beq_iff_eq, List.map_cons, List.cons.injEq, ← this]
          constructor
          · rintro ⟨hlength, hhead, htail⟩
            exact ⟨hhead, by omega, htail⟩
          · rintro ⟨hhead, hlength, htail⟩
            exact ⟨by omega, hhead, htail⟩

/-! ### `std::stoi` -/

/-- The two exceptions `std::stoi` throws; both are `std::logic_error`s. -/
inductive LogicError where
  | invalidArgument
  | outOfRange
deriving DecidableEq, Repr

def digitsValue (digits : Bytes) : Nat :=
  digits.foldl (fun value digit => value * 10 + (digit.toNat - 48)) 0

/-- `std::stoi` in base ten: blanks, an optional sign, then as many digits as there are. What follows
the digits is ignored. -/
def stoi (s : Bytes) : Except LogicError Int :=
  let unpadded := s.dropWhile isspace
  let negative := unpadded.head? == some 45
  let unsigned := if negative || unpadded.head? == some 43 then unpadded.tail else unpadded
  let digits := unsigned.takeWhile isdigit
  let value : Int := if negative then -(digitsValue digits : Int) else digitsValue digits
  if digits = [] then .error .invalidArgument
  else if value < -2 ^ 31 ∨ 2 ^ 31 ≤ value then .error .outOfRange
  else .ok value

/-! ### Numerals -/

theorem isdigit_of_isDigit {c : Char} (h : c.isDigit = true) :
    isdigit (UInt8.ofNat c.toNat) = true ∧ (UInt8.ofNat c.toNat).toNat = c.toNat := by
  simp only [Char.isDigit, Bool.and_eq_true, decide_eq_true_eq] at h
  have hlow : 48 ≤ c.toNat := h.1
  have hhigh : c.toNat ≤ 57 := h.2
  have hbyte : (UInt8.ofNat c.toNat).toNat = c.toNat := by
    rw [UInt8.toNat_ofNat']
    omega
  refine ⟨?_, hbyte⟩
  simp only [isdigit, Bool.and_eq_true, decide_eq_true_eq, UInt8.le_iff_toNat_le, hbyte]
  exact ⟨hlow, hhigh⟩

theorem isdigit_of_mem_decimal {n : Nat} {digit : UInt8} (h : digit ∈ decimal n) :
    isdigit digit = true := by
  obtain ⟨c, hc, rfl⟩ := List.mem_map.mp h
  exact (isdigit_of_isDigit (Nat.isDigit_of_mem_toDigits (by decide) (by decide) hc)).1

theorem decimal_ne_nil (n : Nat) : decimal n ≠ [] := by
  simp [decimal, Nat.toDigits_ne_nil]

theorem digitsValue_decimal (n : Nat) : digitsValue (decimal n) = n := by
  have hvalue : ∀ (digits : List Char) (value : Nat), (∀ c ∈ digits, c.isDigit = true) →
      (digits.map fun c => UInt8.ofNat c.toNat).foldl
        (fun value digit => value * 10 + (digit.toNat - 48)) value
        = Nat.ofDigitChars 10 digits value := by
    intro digits
    induction digits with
    | nil => simp
    | cons c digits ih =>
        intro value hdigits
        rw [List.forall_mem_cons] at hdigits
        rw [List.map_cons, List.foldl_cons, ih _ hdigits.2, Nat.ofDigitChars_cons,
          (isdigit_of_isDigit hdigits.1).2, Nat.mul_comm]
        rfl
  rw [digitsValue, decimal, hvalue _ _ fun c => Nat.isDigit_of_mem_toDigits (by decide) (by decide)]
  exact Nat.ofDigitChars_ten_toDigits

theorem decimal_injective : Function.Injective decimal := by
  intro m n h
  rw [← digitsValue_decimal m, h, digitsValue_decimal]

/-- A numeral of at least one digit. -/
def Digits (digits : Bytes) : Prop := digits ≠ [] ∧ ∀ digit ∈ digits, isdigit digit = true

theorem isdigit_iff {c : UInt8} : isdigit c = true ↔ 48 ≤ c.toNat ∧ c.toNat ≤ 57 := by
  simp [isdigit, UInt8.le_iff_toNat_le]

theorem isspace_iff {c : UInt8} :
    isspace c = true ↔ c.toNat = 32 ∨ 9 ≤ c.toNat ∧ c.toNat ≤ 13 := by
  simp [isspace, UInt8.le_iff_toNat_le, ← UInt8.toNat_inj]

theorem isspace_of_isdigit {c : UInt8} (h : isdigit c = true) : isspace c = false := by
  rw [isdigit_iff] at h
  rw [Bool.eq_false_iff, ne_eq, isspace_iff]
  omega

theorem ne_of_isdigit {c d : UInt8} (h : isdigit c = true) (hd : isdigit d = false) : c ≠ d := by
  rintro rfl
  rw [h] at hd
  cases hd

/-- The value of a numeral behind a sign. -/
def signedValue (sign digits : Bytes) : Int :=
  if sign = [45] then -(digitsValue digits : Int) else digitsValue digits

theorem stoi_scan {blanks sign digits junk : Bytes} (hblanks : ∀ c ∈ blanks, isspace c = true)
    (hsign : sign = [] ∨ sign = [43] ∨ sign = [45]) (hdigits : Digits digits)
    (hjunk : ∀ c ∈ junk.head?, isdigit c = false) :
    stoi (blanks ++ (sign ++ (digits ++ junk))) =
      if signedValue sign digits < -2 ^ 31 ∨ 2 ^ 31 ≤ signedValue sign digits then
        .error .outOfRange
      else .ok (signedValue sign digits) := by
  have htake : (digits ++ junk).takeWhile isdigit = digits := by
    rw [List.takeWhile_append_of_pos hdigits.2]
    cases junk with
    | nil => simp
    | cons c junk =>
        rw [List.takeWhile_cons_of_neg (by simp [hjunk c rfl]), List.append_nil]
  obtain ⟨digit, more, hfirst⟩ := List.exists_cons_of_ne_nil hdigits.1
  have hdigit : isdigit digit = true := hdigits.2 digit (hfirst ▸ List.mem_cons_self)
  have hunpadded : (blanks ++ (sign ++ (digits ++ junk))).dropWhile isspace =
      sign ++ (digits ++ junk) := by
    rw [List.dropWhile_append_of_pos hblanks]
    rcases hsign with rfl | rfl | rfl
    · rw [hfirst]
      exact List.dropWhile_cons_of_neg (by simp [isspace_of_isdigit hdigit])
    · exact List.dropWhile_cons_of_neg (by decide)
    · exact List.dropWhile_cons_of_neg (by decide)
  rw [stoi, hunpadded]
  rcases hsign with rfl | rfl | rfl
  · have hminus : ((digits ++ junk).head? == some 45) = false := by
      simpa [hfirst] using ne_of_isdigit hdigit (by decide)
    have hplus : ((digits ++ junk).head? == some 43) = false := by
      simpa [hfirst] using ne_of_isdigit hdigit (by decide)
    simp only [List.nil_append, hminus, hplus, Bool.or_self, Bool.false_eq_true, if_false, htake,
      hdigits.1, signedValue, reduceCtorEq]
  · have hminus : ((43 : UInt8) == 45) = false := rfl
    have hvalue : signedValue [43] digits = digitsValue digits := if_neg (by decide)
    simp only [List.singleton_append, List.head?_cons, List.tail_cons, Option.some_beq_some, hminus,
      beq_self_eq_true, Bool.or_true, Bool.false_eq_true, if_true, if_false, htake, hdigits.1, hvalue]
  · simp only [List.singleton_append, List.head?_cons, List.tail_cons, beq_self_eq_true,
      Bool.true_or, if_true, if_false, htake, hdigits.1, signedValue]

theorem stoi_signed {sign digits : Bytes} (hsign : sign = [] ∨ sign = [43] ∨ sign = [45])
    (hdigits : Digits digits) :
    stoi (sign ++ digits) =
      if signedValue sign digits < -2 ^ 31 ∨ 2 ^ 31 ≤ signedValue sign digits then
        .error .outOfRange
      else .ok (signedValue sign digits) := by
  have hscan := @stoi_scan [] sign digits [] (by simp) hsign hdigits (by simp)
  rwa [List.nil_append, List.append_nil] at hscan

theorem stoi_digits {digits : Bytes} (h : Digits digits) :
    stoi digits = if digitsValue digits < 2 ^ 31 then .ok (digitsValue digits)
      else .error .outOfRange := by
  have hvalue : signedValue [] digits = digitsValue digits := if_neg (by simp)
  have hsigned := stoi_signed (Or.inl rfl) h
  rw [List.nil_append, hvalue] at hsigned
  rw [hsigned]
  split_ifs with hrange hsmall
  · omega
  · rfl
  · rfl
  · omega

theorem stoi_decimal (n : Nat) :
    stoi (decimal n) = if n < 2 ^ 31 then .ok n else .error .outOfRange := by
  have hdigits : Digits (decimal n) := ⟨decimal_ne_nil n, fun _ => isdigit_of_mem_decimal⟩
  rw [stoi_digits hdigits, digitsValue_decimal]

end Seasocks
