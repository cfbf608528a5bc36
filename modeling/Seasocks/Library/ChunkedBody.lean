import Mathlib.Data.List.TakeWhile

/-!
# The chunked transfer coding

The format of chunked bodies in HTTP/1.1: chunks, each with its size in hexadecimal digits on a line of
its own and a line end behind its data, and a last chunk of size 0 with trailer fields up to an empty
line.
-/

namespace ChunkedBody

/-! ### Reading -/

/-- What follows a line end. -/
def lineEnd : List UInt8 → Option (List UInt8)
  | 13 :: 10 :: rest => some rest
  | _ => none

def digitValue (byte : UInt8) : Option Nat :=
  if 48 ≤ byte ∧ byte ≤ 57 then some (byte.toNat - 48)
  else if 97 ≤ byte ∧ byte ≤ 102 then some (byte.toNat - 87)
  else if 65 ≤ byte ∧ byte ≤ 70 then some (byte.toNat - 55)
  else none

def isDigit (byte : UInt8) : Bool := (digitValue byte).isSome

def valueOf (digits : List UInt8) : Nat :=
  digits.foldl (fun value byte => 16 * value + (digitValue byte).getD 0) 0

/-- A chunk extension is passed over. -/
def skipExtension (bytes : List UInt8) : List UInt8 :=
  if bytes.head? = some 59 then bytes.dropWhile (· != 13) else bytes

/-- The line with the size of a chunk. -/
def readSize (bytes : List UInt8) : Option (Nat × List UInt8) :=
  let digits := bytes.takeWhile isDigit
  if digits = [] then
    none
  else
    (lineEnd (skipExtension (bytes.dropWhile isDigit))).map fun rest => (valueOf digits, rest)

/-- Trailer fields are passed over up to the empty line. -/
def readTrailer : Nat → List UInt8 → Option (List UInt8)
  | 0, _ => none
  | fuel + 1, bytes =>
      match lineEnd bytes with
      | some rest => some rest
      | none => (lineEnd (bytes.dropWhile (· != 13))).bind (readTrailer fuel)

/-- The content of the chunks up to the last one, and what is left over. -/
def readChunks : Nat → List UInt8 → Option (List UInt8 × List UInt8)
  | 0, _ => none
  | fuel + 1, bytes =>
      match readSize bytes with
      | none => none
      | some (0, rest) => (readTrailer (rest.length + 1) rest).map fun left => ([], left)
      | some (size + 1, rest) =>
          if rest.length < size + 1 then
            none
          else
            (lineEnd (rest.drop (size + 1))).bind fun next =>
              (readChunks fuel next).map fun (content, left) => (rest.take (size + 1) ++ content, left)

/-- Every chunk takes a byte at least, so there is fuel for all of them. -/
def decode (body : List UInt8) : Option (List UInt8 × List UInt8) := readChunks (body.length + 1) body

/-! ### Sizes -/

def sizeText (size : Nat) : List UInt8 :=
  (Nat.toDigits 16 size).map fun digit => UInt8.ofNat digit.toNat

def sizeLine (size : Nat) : List UInt8 := sizeText size ++ [13, 10]

theorem digitValue_digitChar {digit : Nat} (h : digit < 16) :
    digitValue (UInt8.ofNat digit.digitChar.toNat) = some digit := by
  have hall : ∀ digit : Fin 16,
      digitValue (UInt8.ofNat digit.val.digitChar.toNat) = some digit.val := by decide
  exact hall ⟨digit, h⟩

theorem sizeText_of_lt {size : Nat} (h : size < 16) :
    sizeText size = [UInt8.ofNat size.digitChar.toNat] := by
  rw [sizeText, Nat.toDigits_of_lt_base h]
  rfl

theorem sizeText_of_ge {size : Nat} (h : 16 ≤ size) :
    sizeText size = sizeText (size / 16) ++ [UInt8.ofNat (size % 16).digitChar.toNat] := by
  rw [sizeText, Nat.toDigits_of_base_le (by omega) h, List.map_append]
  rfl

theorem valueOf_append (digits : List UInt8) (byte : UInt8) :
    valueOf (digits ++ [byte]) = 16 * valueOf digits + (digitValue byte).getD 0 := by
  rw [valueOf, List.foldl_append]
  rfl

theorem valueOf_sizeText (size : Nat) : valueOf (sizeText size) = size := by
  induction size using Nat.strongRecOn with
  | ind size ih =>
      by_cases hlt : size < 16
      · rw [sizeText_of_lt hlt, valueOf, List.foldl_cons, digitValue_digitChar hlt]
        simp
      · have hdigit := digitValue_digitChar (Nat.mod_lt size (show 0 < 16 by omega))
        rw [sizeText_of_ge (by omega), valueOf_append, ih (size / 16) (by omega), hdigit]
        exact Nat.div_add_mod size 16

theorem isDigit_of_mem_sizeText (size : Nat) : ∀ byte ∈ sizeText size, isDigit byte = true := by
  have hdigit : ∀ digit < 16, isDigit (UInt8.ofNat digit.digitChar.toNat) = true := by
    intro digit h
    rw [isDigit, digitValue_digitChar h]
    rfl
  induction size using Nat.strongRecOn with
  | ind size ih =>
      intro byte hbyte
      by_cases hlt : size < 16
      · rw [sizeText_of_lt hlt, List.mem_singleton] at hbyte
        rw [hbyte]
        exact hdigit size hlt
      · rw [sizeText_of_ge (by omega), List.mem_append, List.mem_singleton] at hbyte
        rcases hbyte with hbyte | hbyte
        · exact ih (size / 16) (by omega) byte hbyte
        · rw [hbyte]
          exact hdigit _ (Nat.mod_lt size (by omega))

theorem sizeText_ne_nil (size : Nat) : sizeText size ≠ [] := by
  rw [sizeText, ne_eq, List.map_eq_nil_iff]
  exact Nat.toDigits_ne_nil

/-- Digits are no line end. -/
theorem lineEnd_sizeText (size : Nat) (rest : List UInt8) :
    lineEnd (sizeText size ++ rest) = none := by
  obtain ⟨byte, digits, htext⟩ := List.exists_cons_of_ne_nil (sizeText_ne_nil size)
  have hdigit : isDigit byte = true :=
    isDigit_of_mem_sizeText size byte (by rw [htext]; exact List.mem_cons_self)
  have hne : byte ≠ 13 := by
    rintro rfl
    cases hdigit
  rw [htext, List.cons_append, lineEnd]
  rintro rest' heq
  injection heq with hbyte
  exact hne hbyte

theorem readSize_sizeLine (size : Nat) (rest : List UInt8) :
    readSize (sizeLine size ++ rest) = some (size, rest) := by
  have hstop : isDigit 13 = false := by decide
  have htake : (sizeLine size ++ rest).takeWhile isDigit = sizeText size := by
    rw [sizeLine, List.append_assoc, List.takeWhile_append_of_pos (isDigit_of_mem_sizeText size)]
    simp [hstop]
  have hdrop : (sizeLine size ++ rest).dropWhile isDigit = 13 :: 10 :: rest := by
    rw [sizeLine, List.append_assoc, List.dropWhile_append_of_pos (isDigit_of_mem_sizeText size)]
    simp [hstop]
  rw [readSize, htake, hdrop, if_neg (sizeText_ne_nil size), valueOf_sizeText]
  rfl

/-! ### Chunks -/

/-- A chunk of data, as far as its data: the line end decides about the rest. -/
theorem readChunks_data {data : List UInt8} (fuel : Nat) (rest : List UInt8) (hdata : data ≠ []) :
    readChunks (fuel + 1) (sizeLine data.length ++ data ++ rest) =
      (lineEnd rest).bind fun next =>
        (readChunks fuel next).map fun (content, left) => (data ++ content, left) := by
  obtain ⟨byte, data, rfl⟩ := List.exists_cons_of_ne_nil hdata
  rw [readChunks, List.append_assoc, readSize_sizeLine]
  have henough : ¬ (byte :: data ++ rest).length < data.length + 1 := by
    rw [List.length_append, List.length_cons]
    omega
  have htake : (byte :: data ++ rest).take (data.length + 1) = byte :: data := by
    rw [← List.length_cons, List.take_left]
  have hdrop : (byte :: data ++ rest).drop (data.length + 1) = rest := by
    rw [← List.length_cons, List.drop_left]
  rw [List.length_cons]
  dsimp only
  rw [if_neg henough, htake, hdrop]

theorem readChunks_last (fuel : Nat) (rest : List UInt8) :
    readChunks (fuel + 1) (sizeLine 0 ++ 13 :: 10 :: rest) = some ([], rest) := by
  rw [readChunks, readSize_sizeLine]
  rfl

end ChunkedBody
