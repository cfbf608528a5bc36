import Seasocks.Bytes

/-!
# Output streams

A `std::ostream` and the insertions the server uses.
-/

namespace Seasocks

inductive Base where
  | dec | hex | oct
deriving DecidableEq, Repr

/-- The `adjustfield`; when none of its flags is set, padding is in front as for `right`. -/
inductive Adjust where
  | right | left | internal
deriving DecidableEq, Repr

/-- A `std::ostream`: what has been written to it, and its formatting state. -/
structure Ostream where
  written : Bytes
  base : Base
  fill : UInt8
  width : Nat
  adjust : Adjust
  showbase : Bool
  uppercase : Bool
deriving DecidableEq, Repr

namespace Ostream

/-- A new `std::stringstream`. -/
def fresh : Ostream :=
  { written := []
    base := .dec
    fill := 32
    width := 0
    adjust := .right
    showbase := false
    uppercase := false }

/-- `operator<<` of a character or of a string: the text is padded to the width, which is used up. -/
def put (str : Ostream) (text : Bytes) : Ostream :=
  let padding := List.replicate (str.width - text.length) str.fill
  { str with
    written := str.written ++ if str.adjust = .left then text ++ padding else padding ++ text
    width := 0 }

/-- `std::setw`. -/
def setw (str : Ostream) (width : Nat) : Ostream := { str with width }

/-- `std::setfill`. -/
def setfill (str : Ostream) (fill : UInt8) : Ostream := { str with fill }

/-- `std::hex`. -/
def hex (str : Ostream) : Ostream := { str with base := .hex }

/-- The digits of an unsigned value. -/
def digits (str : Ostream) (n : Nat) : Bytes :=
  match str.base with
  | .dec => decimal n
  | .hex =>
      if str.uppercase then (hexadecimal n).map fun c => if 97 ≤ c then c - 32 else c else hexadecimal n
  | .oct => (Nat.toDigits 8 n).map fun c => UInt8.ofNat c.toNat

/-- What stands before the digits: the sign of a decimal, or the base. -/
def lead (str : Ostream) (value : Int) : Bytes :=
  match str.base with
  | .dec => if value < 0 then ascii "-" else []
  | .hex => if str.showbase ∧ value ≠ 0 then ascii (if str.uppercase then "0X" else "0x") else []
  | .oct => if str.showbase ∧ value ≠ 0 then ascii "0" else []

/-- `operator<<` of an integer of this many bits. Only a decimal has a sign. Padding goes behind a sign
or `0x` when it is `internal`. -/
def putInteger (str : Ostream) (bits : Nat) (value : Int) : Ostream :=
  let magnitude := if str.base = .dec then value.natAbs else (value % 2 ^ bits).toNat
  let text := str.lead value ++ str.digits magnitude
  let padding := List.replicate (str.width - text.length) str.fill
  { str with
    written := str.written ++
      match str.adjust with
      | .left => text ++ padding
      | .right => padding ++ text
      | .internal =>
          if str.base = .oct then padding ++ text else str.lead value ++ padding ++ str.digits magnitude
    width := 0 }

end Ostream

end Seasocks
