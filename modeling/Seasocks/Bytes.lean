import Mathlib.Algebra.Ring.Int.Defs
import Mathlib.Algebra.Ring.Nat
import Mathlib.Data.List.Basic
import Mathlib.Data.List.TakeWhile

/-!
# Bytes and C strings

Everything the server reads or writes is a sequence of bytes: `std::vector<uint8_t>`,
`std::string` and the `char` arrays between them are all modelled by `Bytes`. The character classes
are those of the C locale.
-/

namespace Seasocks

abbrev Bytes := List UInt8

/-- A string constant of the source. -/
def ascii (s : String) : Bytes := s.toList.map fun c => UInt8.ofNat c.toNat

def cr : UInt8 := 13

def lf : UInt8 := 10

def crlf : Bytes := [cr, lf]

/-- `isspace` in the C locale: tab, line feed, vertical tab, form feed, carriage return, space. -/
def isspace (c : UInt8) : Bool := c == 32 || (9 ≤ c && c ≤ 13)

def isdigit (c : UInt8) : Bool := 48 ≤ c && c ≤ 57

def tolower (c : UInt8) : UInt8 := if 65 ≤ c && c ≤ 90 then c + 32 else c

/-- What a reader of a `const char*` sees: the bytes before the first NUL. -/
def cString (s : Bytes) : Bytes := s.takeWhile (· != 0)

/-- `toString` and `std::to_string` of an unsigned value. -/
def decimal (n : Nat) : Bytes := (Nat.toDigits 10 n).map fun c => UInt8.ofNat c.toNat

/-- `toString` of a signed value. -/
def signedDecimal (i : Int) : Bytes :=
  if i < 0 then ascii "-" ++ decimal i.natAbs else decimal i.toNat

/-- A value streamed through `std::hex`. -/
def hexadecimal (n : Nat) : Bytes := (Nat.toDigits 16 n).map fun c => UInt8.ofNat c.toNat

/-- `static_cast<int>` of a `size_t`. -/
def staticCastInt (n : Nat) : Int :=
  let low : Nat := n % 2 ^ 32
  if low < 2 ^ 31 then (low : Int) else (low : Int) - 2 ^ 32

theorem staticCastInt_of_lt {n : Nat} (h : n < 2 ^ 31) : staticCastInt n = n := by
  have hmod : n % 2 ^ 32 = n := Nat.mod_eq_of_lt (by omega)
  rw [staticCastInt, hmod, if_pos h]

@[simp]
theorem isspace_zero : isspace 0 = false := by decide

@[simp]
theorem cString_nil : cString [] = [] := rfl

theorem cString_of_not_mem {s : Bytes} (h : 0 ∉ s) : cString s = s := by
  rw [cString, List.takeWhile_eq_self_iff]
  intro byte hbyte
  have hne : byte ≠ 0 := fun hzero => h (hzero ▸ hbyte)
  simpa using hne

end Seasocks
