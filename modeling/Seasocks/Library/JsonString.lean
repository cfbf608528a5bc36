import Seasocks.Library.Hexadecimal

/-!
# JSON strings

The strings of RFC 8259, over bytes: a character is a byte from 32 on, or an escape. Bytes from 128 on
stand for themselves, and a `\u` escape for the UTF-8 form of its code point.
-/

namespace JsonText

open Hexadecimal

/-- The character `"`. -/
def quote : UInt8 := 34

/-- The character `\`. -/
def backslash : UInt8 := 92

def utf8 (n : Nat) : List UInt8 :=
  if n < 0x80 then [UInt8.ofNat n]
  else if n < 0x800 then [UInt8.ofNat (0xc0 + n / 0x40), UInt8.ofNat (0x80 + n % 0x40)]
  else if n < 0x10000 then
    [UInt8.ofNat (0xe0 + n / 0x1000), UInt8.ofNat (0x80 + n / 0x40 % 0x40),
      UInt8.ofNat (0x80 + n % 0x40)]
  else
    [UInt8.ofNat (0xf0 + n / 0x40000), UInt8.ofNat (0x80 + n / 0x1000 % 0x40),
      UInt8.ofNat (0x80 + n / 0x40 % 0x40), UInt8.ofNat (0x80 + n % 0x40)]

/-- The four digits of a `\u` escape. -/
def readUnit : List UInt8 → Option (Nat × List UInt8)
  | a :: b :: c :: d :: rest => do
      let a ← hexValue a
      let b ← hexValue b
      let c ← hexValue c
      let d ← hexValue d
      return (((a * 16 + b) * 16 + c) * 16 + d, rest)
  | _ => none

/-- The second half of a surrogate pair. -/
def readLowSurrogate : List UInt8 → Option (Nat × List UInt8)
  | 92 :: 117 :: text =>
      (readUnit text).filter fun unit => 0xdc00 ≤ unit.1 ∧ unit.1 < 0xe000
  | _ => none

/-- What follows `\u`. -/
def readUnicode (text : List UInt8) : Option (List UInt8 × List UInt8) := do
  let (unit, rest) ← readUnit text
  if 0xd800 ≤ unit ∧ unit < 0xdc00 then
    match readLowSurrogate rest with
    | some (low, rest) => return (utf8 (0x10000 + (unit - 0xd800) * 0x400 + (low - 0xdc00)), rest)
    | none => return (utf8 unit, rest)
  else return (utf8 unit, rest)

/-- The escapes of two characters. -/
def simpleEscapes : List (UInt8 × UInt8) :=
  [(34, 34), (92, 92), (47, 47), (98, 8), (102, 12), (110, 10), (114, 13), (116, 9)]

/-- What follows a backslash. -/
def readEscape : List UInt8 → Option (List UInt8 × List UInt8)
  | [] => none
  | c :: rest =>
      if c = 117 then readUnicode rest
      else (simpleEscapes.lookup c).map fun byte => ([byte], rest)

/-- One character of a string. -/
def readChar : List UInt8 → Option (List UInt8 × List UInt8)
  | [] => none
  | c :: rest =>
      if c = backslash then readEscape rest
      else if c = quote ∨ c < 32 then none
      else some ([c], rest)

theorem length_utf8 (n : Nat) : (utf8 n).length ≤ 4 := by
  rw [utf8]
  split_ifs <;> simp

theorem readUnit_length {text rest : List UInt8} {unit : Nat}
    (h : readUnit text = some (unit, rest)) : text.length = rest.length + 4 := by
  match text, h with
  | a :: b :: c :: d :: more, h =>
      simp only [readUnit, Option.bind_eq_bind, Option.bind_eq_some_iff] at h
      obtain ⟨_, -, _, -, _, -, _, -, heq⟩ := h
      cases heq
      rfl

theorem readLowSurrogate_length {text rest : List UInt8} {unit : Nat}
    (h : readLowSurrogate text = some (unit, rest)) : text.length = rest.length + 6 := by
  unfold readLowSurrogate at h
  split at h
  · rw [Option.filter_eq_some_iff] at h
    rw [List.length_cons, List.length_cons, readUnit_length h.1]
  · cases h

theorem readUnicode_length {text bytes rest : List UInt8}
    (h : readUnicode text = some (bytes, rest)) : rest.length + bytes.length ≤ text.length := by
  rw [readUnicode] at h
  obtain ⟨⟨unit, more⟩, hunit, h⟩ := Option.bind_eq_some_iff.mp h
  have hlength := readUnit_length hunit
  have hmade : ∀ {n : Nat} {more : List UInt8}, some (utf8 n, more) = some (bytes, rest) →
      rest = more ∧ bytes.length ≤ 4 := by
    intro n more heq
    obtain ⟨rfl, rfl⟩ := Prod.mk.inj (Option.some.inj heq)
    exact ⟨rfl, length_utf8 n⟩
  dsimp only at h
  split_ifs at h
  · cases hlow : readLowSurrogate more with
    | none =>
        rw [hlow] at h
        obtain ⟨rfl, hbytes⟩ := hmade h
        omega
    | some low =>
        have := readLowSurrogate_length hlow
        rw [hlow] at h
        obtain ⟨rfl, hbytes⟩ := hmade h
        omega
  · obtain ⟨rfl, hbytes⟩ := hmade h
    omega

/-- An escape takes as many characters behind the backslash as it stands for, and one more for a `u`. -/
theorem readEscape_length {text bytes rest : List UInt8} (h : readEscape text = some (bytes, rest)) :
    rest.length + bytes.length ≤ text.length := by
  match text, h with
  | c :: more, h =>
      rw [readEscape] at h
      split_ifs at h
      · have := readUnicode_length h
        rw [List.length_cons]
        omega
      · obtain ⟨byte, -, heq⟩ := Option.map_eq_some_iff.mp h
        cases heq
        exact Nat.le_refl _

theorem readChar_length {text bytes rest : List UInt8} (h : readChar text = some (bytes, rest)) :
    rest.length < text.length ∧ rest.length + bytes.length ≤ text.length := by
  match text, h with
  | c :: more, h =>
      rw [readChar] at h
      split_ifs at h
      · have := readEscape_length h
        rw [List.length_cons]
        omega
      · cases h
        exact ⟨Nat.lt_succ_self _, Nat.le_refl _⟩

/-- A string, from behind its first quotation mark to behind its last. -/
def readString (text : List UInt8) : Option (List UInt8 × List UInt8) :=
  if text.head? = some quote then some ([], text.tail)
  else
    match _h : readChar text with
    | none => none
    | some (bytes, rest) =>
        (readString rest).map fun string => (bytes ++ string.1, string.2)
termination_by text.length
decreasing_by exact (readChar_length ‹_›).1

theorem readString_quote (rest : List UInt8) : readString (quote :: rest) = some ([], rest) := by
  rw [readString, if_pos]
  all_goals rfl

theorem readString_of_readChar {text bytes rest : List UInt8} (hquote : text.head? ≠ some quote)
    (h : readChar text = some (bytes, rest)) :
    readString text = (readString rest).map fun string => (bytes ++ string.1, string.2) := by
  rw [readString, if_neg hquote]
  split
  · next hnone =>
      rw [hnone] at h
      cases h
  · next hsome =>
      rw [hsome] at h
      cases h
      rfl

theorem readString_of_readChar_none {text : List UInt8} (hquote : text.head? ≠ some quote)
    (h : readChar text = none) : readString text = none := by
  rw [readString, if_neg hquote]
  split
  · rfl
  · next hsome =>
      rw [hsome] at h
      cases h

/-- A text that is one string, with its quotation marks. -/
def Literal (text string : List UInt8) : Prop :=
  ∃ more, text = quote :: more ∧ readString more = some (string, [])

/-- The characters of a string, read in front of its last quotation mark. -/
def Reads (body string : List UInt8) : Prop :=
  ∀ rest, readString (body ++ quote :: rest) = some (string, rest)

theorem Reads.nil : Reads [] [] := readString_quote

/-- One character more at the front. -/
theorem Reads.append {piece bytes body string : List UInt8} (hne : piece ≠ [])
    (hquote : piece.head? ≠ some quote)
    (hpiece : ∀ rest, readChar (piece ++ rest) = some (bytes, rest)) (h : Reads body string) :
    Reads (piece ++ body) (bytes ++ string) := by
  intro rest
  have hhead : (piece ++ (body ++ quote :: rest)).head? ≠ some quote := by
    obtain ⟨c, more, rfl⟩ := List.exists_cons_of_ne_nil hne
    exact hquote
  rw [List.append_assoc, readString_of_readChar hhead (hpiece _), h rest, Option.map_some]

theorem Reads.literal {body string : List UInt8} (h : Reads body string) :
    Literal (quote :: (body ++ [quote])) string :=
  ⟨_, rfl, h []⟩

theorem readString_length {text string rest : List UInt8}
    (h : readString text = some (string, rest)) : string.length + rest.length < text.length := by
  fun_induction readString text generalizing string rest with
  | case1 text hquote =>
      cases h
      cases text with
      | nil => cases hquote
      | cons => simp
  | case2 => cases h
  | case3 text hquote bytes more hchar ih =>
      obtain ⟨⟨string', rest'⟩, hmore, heq⟩ := Option.map_eq_some_iff.mp h
      cases heq
      have := ih hmore
      have := (readChar_length hchar).2
      simp only [List.length_append]
      omega

theorem Literal.unique {literal text other : List UInt8} (h : Literal literal text)
    (hother : Literal literal other) : text = other := by
  obtain ⟨more, rfl, htext⟩ := h
  obtain ⟨more', heq, hother⟩ := hother
  obtain rfl := (List.cons.inj heq).2
  exact (Prod.mk.inj (Option.some.inj (htext.symm.trans hother))).1

theorem literal_quoted_iff_readString {text string : List UInt8} :
    Literal (quote :: (text ++ [quote])) string ↔ readString (text ++ [quote]) = some (string, []) := by
  constructor
  · rintro ⟨more, heq, h⟩
    exact (List.cons.inj heq).2 ▸ h
  · exact fun h => ⟨_, rfl, h⟩

theorem readString_plain {c : UInt8} (h : c ≠ quote ∧ c ≠ backslash ∧ 32 ≤ c) (rest : List UInt8) :
    readString (c :: rest) = (readString rest).map fun string => (c :: string.1, string.2) := by
  have hhead : (c :: rest).head? ≠ some quote := by simpa using h.1
  have hchar : readChar (c :: rest) = some ([c], rest) := by
    rw [readChar, if_neg h.2.1, if_neg]
    rintro (hquote | hprint)
    · exact h.1 hquote
    · exact absurd hprint (UInt8.not_lt.mpr h.2.2)
  exact readString_of_readChar hhead hchar

/-- Only text without anything to escape is between quotation marks what it is. -/
theorem literal_quoted_iff (text : List UInt8) :
    Literal (quote :: (text ++ [quote])) text ↔
      ∀ c ∈ text, c ≠ quote ∧ c ≠ backslash ∧ 32 ≤ c := by
  rw [literal_quoted_iff_readString]
  induction text with
  | nil => exact iff_of_true (readString_quote []) (by simp)
  | cons c text ih =>
      rw [List.forall_mem_cons, ← ih, List.cons_append]
      have hkept (hplain : c ≠ quote ∧ c ≠ backslash ∧ 32 ≤ c) :
          readString (c :: (text ++ [quote])) = some (c :: text, []) ↔
            readString (text ++ [quote]) = some (text, []) := by
        rw [readString_plain hplain]
        cases readString (text ++ [quote]) with
        | none => simp
        | some string => simp [Prod.ext_iff]
      constructor
      · intro h
        by_cases hquote : c = quote
        · rw [hquote, readString_quote] at h
          simp at h
        have hhead : (c :: (text ++ [quote])).head? ≠ some quote := by simpa using hquote
        cases hchar : readChar (c :: (text ++ [quote])) with
        | none =>
            rw [readString_of_readChar_none hhead hchar] at h
            cases h
        | some char =>
            obtain ⟨bytes, rest⟩ := char
            obtain ⟨string, hstring, heq⟩ :=
              Option.map_eq_some_iff.mp ((readString_of_readChar hhead hchar).symm.trans h)
            have hlength := readString_length hstring
            rw [readChar] at hchar
            split_ifs at hchar with hbackslash hprint
            · -- the escape is longer than what it stands for, and nothing makes up for that
              have := readEscape_length hchar
              have htotal := congrArg (fun pair => pair.1.length) heq
              simp only [List.length_append, List.length_cons, List.length_nil] at this htotal
              omega
            · have hplain : c ≠ quote ∧ c ≠ backslash ∧ 32 ≤ c :=
                ⟨hquote, hbackslash, UInt8.not_lt.mp fun hlt => hprint (Or.inr hlt)⟩
              exact ⟨hplain, (hkept hplain).mp h⟩
      · rintro ⟨hplain, hmore⟩
        exact (hkept hplain).mpr hmore

/-! ### Quotation marks inside a string -/

/-- Whether the character behind this text is escaped by a backslash. -/
def escaping (text : List UInt8) : Bool :=
  text.foldl (fun escaped c => !escaped && c == backslash) false

/-- Whole characters, without a control character, in which every quotation mark is escaped. -/
structure Escaped (text : List UInt8) : Prop where
  whole : escaping text = false
  quotes : ∀ before after, text = before ++ quote :: after → escaping before = true
  printable : ∀ c ∈ text, 32 ≤ c

theorem escaping_append {text : List UInt8} (h : escaping text = false) (more : List UInt8) :
    escaping (text ++ more) = escaping more := by
  rw [escaping, List.foldl_append]
  exact congrArg (more.foldl _) h

theorem Escaped.nil : Escaped [] where
  whole := rfl
  quotes before after h := by simp at h
  printable := by simp

theorem Escaped.append {text more : List UInt8} (h : Escaped text) (hmore : Escaped more) :
    Escaped (text ++ more) where
  whole := (escaping_append h.whole more).trans hmore.whole
  quotes before after heq := by
    rcases List.append_eq_append_iff.mp heq with ⟨part, rfl, hpart⟩ | ⟨part, rfl, hpart⟩
    · rw [escaping_append h.whole]
      exact hmore.quotes part after hpart
    · cases part with
      | nil =>
          rw [List.append_nil] at h
          have := hmore.quotes [] after (by simpa using hpart.symm)
          cases this
      | cons c part =>
          obtain ⟨rfl, rfl⟩ := List.cons.inj hpart
          exact h.quotes before part rfl
  printable c hc := by
    rcases List.mem_append.mp hc with hc | hc
    · exact h.printable c hc
    · exact hmore.printable c hc

/-- A character that stands for itself. -/
theorem Escaped.plain {c : UInt8} (h : c ≠ quote ∧ c ≠ backslash ∧ 32 ≤ c) : Escaped [c] where
  whole := by simpa [escaping] using h.2.1
  quotes before after heq := by
    rcases List.cons_eq_append_iff.mp heq with ⟨rfl, htail⟩ | ⟨more, rfl, hnil⟩
    · exact absurd (List.cons.inj htail).1.symm h.1
    · simp at hnil
  printable := by simpa using h.2.2

/-- A backslash and a character. -/
theorem Escaped.pair {c : UInt8} (h : 32 ≤ c) : Escaped [backslash, c] where
  whole := by simp [escaping, backslash]
  quotes before after heq := by
    match before, heq with
    | [], heq => exact absurd (List.cons.inj heq).1 (by decide)
    | [_], heq =>
        obtain ⟨rfl, -⟩ := List.cons.inj heq
        rfl
    | _ :: _ :: more, heq =>
        simp at heq
  printable := by
    rw [List.forall_mem_cons]
    exact ⟨by decide, by simpa using h⟩

end JsonText
