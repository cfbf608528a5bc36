import Mathlib.Data.List.DropRight
import Seasocks.Library.ChunkedBody
import Seasocks.Library.Numeral

/-!
# HTTP messages

A response as its client reads it: a head, which is a status line and fields up to an empty line, and the
body that the fields delimit.
-/

namespace HttpMessage

def text (s : String) : List UInt8 := s.toList.map fun c => UInt8.ofNat c.toNat

structure Field where
  name : List UInt8
  value : List UInt8
deriving DecidableEq, Repr

structure Head where
  status : Nat
  fields : List Field
deriving DecidableEq, Repr

/-! ### Lines -/

/-- What is in front of the first line end, and what is behind it. -/
def splitLine : List UInt8 → Option (List UInt8 × List UInt8)
  | [] => none
  | byte :: rest =>
      if byte = 13 ∧ rest.head? = some 10 then some ([], rest.tail)
      else (splitLine rest).map fun (line, rest) => (byte :: line, rest)

/-- A text whose line end is the first in it. -/
def IsLine (line : List UInt8) : Prop := splitLine (line ++ [13, 10]) = some (line, [])

instance (line : List UInt8) : Decidable (IsLine line) := inferInstanceAs (Decidable (_ = _))

theorem isLine_nil : IsLine [] := rfl

theorem isLine_cons {byte : UInt8} {line : List UInt8} :
    IsLine (byte :: line) ↔ ¬ (byte = 13 ∧ line.head? = some 10) ∧ IsLine line := by
  have hhead : (line ++ [13, 10]).head? = some 10 ↔ line.head? = some 10 := by
    cases line <;> simp
  rw [IsLine, List.cons_append, splitLine]
  simp only [hhead]
  split_ifs with hend
  · simp [hend]
  · rw [and_iff_right hend, IsLine]
    cases splitLine (line ++ [13, 10]) with
    | none => simp
    | some split => simp [Prod.ext_iff]

theorem isLine_of_not_mem {line : List UInt8} (h : 13 ∉ line) : IsLine line := by
  induction line with
  | nil => exact isLine_nil
  | cons byte line ih =>
      rw [List.mem_cons, not_or] at h
      exact isLine_cons.mpr ⟨fun hend => h.1 hend.1.symm, ih h.2⟩

theorem splitLine_append {line : List UInt8} (h : IsLine line) (rest : List UInt8) :
    splitLine (line ++ 13 :: 10 :: rest) = some (line, rest) := by
  induction line with
  | nil => rfl
  | cons byte line ih =>
      obtain ⟨hend, hline⟩ := isLine_cons.mp h
      have hhead : (line ++ 13 :: 10 :: rest).head? = some 10 ↔ line.head? = some 10 := by
        cases line <;> simp
      rw [List.cons_append, splitLine]
      simp only [hhead]
      rw [if_neg hend, ih hline]
      rfl

/-- The lines in front of the first empty one, and what is behind it. -/
def splitLines : Nat → List UInt8 → Option (List (List UInt8) × List UInt8)
  | 0, _ => none
  | fuel + 1, bytes =>
      (splitLine bytes).bind fun (line, rest) =>
        if line = [] then some ([], rest)
        else (splitLines fuel rest).map fun (lines, rest) => (line :: lines, rest)

def joinLines (lines : List (List UInt8)) : List UInt8 := lines.flatMap fun line => line ++ [13, 10]

theorem splitLines_join {lines : List (List UInt8)} (hlines : ∀ line ∈ lines, line ≠ [] ∧ IsLine line)
    (rest : List UInt8) {fuel : Nat} (hfuel : lines.length < fuel) :
    splitLines fuel (joinLines lines ++ 13 :: 10 :: rest) = some (lines, rest) := by
  induction lines generalizing fuel with
  | nil =>
      obtain ⟨fuel, rfl⟩ := Nat.exists_eq_add_of_lt hfuel
      rfl
  | cons line lines ih =>
      cases fuel with
      | zero => exact absurd hfuel (Nat.not_lt_zero _)
      | succ fuel =>
          obtain ⟨⟨hne, hline⟩, hlines⟩ := List.forall_mem_cons.mp hlines
          have hjoin : joinLines (line :: lines) ++ 13 :: 10 :: rest =
              line ++ 13 :: 10 :: (joinLines lines ++ 13 :: 10 :: rest) := by
            simp [joinLines]
          rw [hjoin, splitLines, splitLine_append hline, Option.bind_some]
          dsimp only
          rw [if_neg hne, ih hlines (Nat.lt_of_succ_lt_succ hfuel)]
          rfl

theorem length_le_joinLines (lines : List (List UInt8)) : lines.length ≤ (joinLines lines).length := by
  induction lines with
  | nil => exact Nat.zero_le _
  | cons line lines ih =>
      have hlength : (joinLines (line :: lines)).length = (line ++ [13, 10]).length + (joinLines lines).length := by
        rw [joinLines, List.flatMap_cons, List.length_append]
        rfl
      rw [hlength, List.length_append, List.length_cons, List.length_cons, List.length_cons]
      omega

/-! ### Heads -/

def isBlank (byte : UInt8) : Bool := byte == 32 || byte == 9

def trim (value : List UInt8) : List UInt8 := (value.dropWhile isBlank).rdropWhile isBlank

theorem trim_eq_self {value : List UInt8} (h : ∀ byte ∈ value, isBlank byte = false) : trim value = value := by
  have hfront : value.dropWhile isBlank = value := by
    cases value with
    | nil => rfl
    | cons byte value => rw [List.dropWhile_cons_of_neg (by simp [h byte])]
  rw [trim, hfront, List.rdropWhile_eq_self_iff]
  intro hne
  simp [h _ (List.getLast_mem hne)]

theorem trim_cons_blank (value : List UInt8) : trim (32 :: value) = trim value := by
  rw [trim, List.dropWhile_cons_of_pos (by decide)]
  rfl

/-- The code of a status line. -/
def readStatus (line : List UInt8) : Option Nat :=
  if (text "HTTP/1.1 ").isPrefixOf line then
    let digits := (line.drop 9).take 3
    if digits.length = 3 ∧ digits.all fun byte => 48 ≤ byte && byte ≤ 57 then some (Numeral.value 10 digits)
    else none
  else none

/-- The name in front of the first colon, and the value without the blanks around it. -/
def readField (line : List UInt8) : Option Field :=
  let name := line.takeWhile (· != 58)
  if name.length < line.length then some ⟨name, trim (line.drop (name.length + 1))⟩ else none

def readHead (bytes : List UInt8) : Option (Head × List UInt8) := do
  let (lines, rest) ← splitLines (bytes.length + 1) bytes
  let first ← lines.head?
  let status ← readStatus first
  let fields ← lines.tail.mapM readField
  return (⟨status, fields⟩, rest)

theorem readField_append {name : List UInt8} (hname : 58 ∉ name) (value : List UInt8) :
    readField (name ++ 58 :: 32 :: value) = some ⟨name, trim value⟩ := by
  have htake : (name ++ 58 :: 32 :: value).takeWhile (· != 58) = name := by
    rw [List.takeWhile_append_of_pos, List.takeWhile_cons_of_neg (by decide), List.append_nil]
    intro byte hbyte
    rw [bne_iff_ne]
    exact fun h => hname (h ▸ hbyte)
  have hdrop : (name ++ 58 :: 32 :: value).drop (name.length + 1) = 32 :: value := by
    rw [← List.drop_drop, List.drop_left]
    rfl
  rw [readField, htake, if_pos (by simp), hdrop, trim_cons_blank]

/-- A field as it is written. -/
def fieldLine (field : List UInt8 × List UInt8) : List UInt8 := field.1 ++ 58 :: 32 :: field.2

def written (field : List UInt8 × List UInt8) : Field := ⟨field.1, trim field.2⟩

theorem mapM_readField {fields : List (List UInt8 × List UInt8)} (h : ∀ field ∈ fields, 58 ∉ field.1) :
    (fields.map fieldLine).mapM readField = some (fields.map written) := by
  induction fields with
  | nil => rfl
  | cons field fields ih =>
      obtain ⟨hname, hfields⟩ := List.forall_mem_cons.mp h
      rw [List.map_cons, List.mapM_cons, ih hfields, fieldLine, readField_append hname]
      rfl

theorem readHead_join {first : List UInt8} {status : Nat} {fields : List (List UInt8 × List UInt8)}
    (hfirst : first ≠ [] ∧ IsLine first) (hstatus : readStatus first = some status)
    (hfields : ∀ field ∈ fields, 58 ∉ field.1 ∧ IsLine (fieldLine field)) (rest : List UInt8) :
    readHead (joinLines (first :: fields.map fieldLine) ++ 13 :: 10 :: rest) =
      some (⟨status, fields.map written⟩, rest) := by
  have hlines : ∀ line ∈ first :: fields.map fieldLine, line ≠ [] ∧ IsLine line := by
    rw [List.forall_mem_cons, List.forall_mem_map]
    refine ⟨hfirst, fun field hfield => ⟨?_, (hfields field hfield).2⟩⟩
    rw [fieldLine]
    exact List.append_ne_nil_of_right_ne_nil _ (List.cons_ne_nil _ _)
  have hfuel : (first :: fields.map fieldLine).length <
      (joinLines (first :: fields.map fieldLine) ++ 13 :: 10 :: rest).length + 1 := by
    have hlength := length_le_joinLines (first :: fields.map fieldLine)
    rw [List.length_append]
    omega
  rw [readHead, splitLines_join hlines rest hfuel]
  simp [hstatus, mapM_readField fun field hfield => (hfields field hfield).1]

def lower (byte : UInt8) : UInt8 := if 65 ≤ byte ∧ byte ≤ 90 then byte + 32 else byte

def sameName (a b : List UInt8) : Bool := a.map lower == b.map lower

/-- The values of the fields of a name, whatever its case. -/
def Head.values (head : Head) (name : List UInt8) : List (List UInt8) :=
  (head.fields.filter fun field => sameName field.name name).map (·.value)

theorem Head.values_append (status : Nat) (fields fields' : List Field) (name : List UInt8) :
    Head.values ⟨status, fields ++ fields'⟩ name =
      Head.values ⟨status, fields⟩ name ++ Head.values ⟨status, fields'⟩ name := by
  rw [Head.values, List.filter_append, List.map_append]
  rfl

end HttpMessage
