import Seasocks.Json
import Seasocks.Library.JsonString

/-!
# Strings written as JSON

What the loop of `jsonToStream` writes for one character can be read back in front of anything, so the
whole text can, byte for byte. The overload for objects does not escape anything.
-/

namespace Seasocks

open Hexadecimal JsonText

/-! ### What is written for a character -/

/-- A character that is written as `\u` and four digits. -/
def IsControl (c : UInt8) : Prop := c < 32 ∧ c ≠ 8 ∧ c ≠ 9 ∧ c ≠ 10 ∧ c ≠ 12 ∧ c ≠ 13

instance (c : UInt8) : Decidable (IsControl c) :=
  inferInstanceAs (Decidable (c < 32 ∧ c ≠ 8 ∧ c ≠ 9 ∧ c ≠ 10 ∧ c ≠ 12 ∧ c ≠ 13))

/-- A digit in the case the stream has chosen. -/
def hexDigit (uppercase : Bool) (n : Nat) : UInt8 :=
  UInt8.ofNat (if n < 10 then 48 + n else if uppercase then 55 + n else 87 + n)

/-- The text of a character. -/
def charText (uppercase : Bool) (c : UInt8) : Bytes :=
  if IsControl c then
    [backslash, 117, 48, 48, hexDigit uppercase (c.toNat / 16), hexDigit uppercase (c.toNat % 16)]
  else if c = 8 then [backslash, 98]
  else if c = 9 then [backslash, 116]
  else if c = 10 then [backslash, 110]
  else if c = 12 then [backslash, 102]
  else if c = 13 then [backslash, 114]
  else if c = 34 ∨ c = 92 then [backslash, c]
  else [c]

/-- The flags that `jsonToStream` relies on: no width, and nothing that changes what a number looks like
beyond its base. -/
structure Steady (str : Ostream) : Prop where
  width : str.width = 0
  adjust : str.adjust = .right
  showbase : str.showbase = false

/-- A stream with more text in it, after a manipulator for hexadecimal digits or not. -/
def Ostream.after (str : Ostream) (text : Bytes) (control : Bool) : Ostream :=
  { str with
    written := str.written ++ text
    base := if control then .hex else str.base
    fill := if control then 48 else str.fill }

theorem Steady.after {str : Ostream} (h : Steady str) (text : Bytes) (control : Bool) :
    Steady (str.after text control) :=
  ⟨h.width, h.adjust, h.showbase⟩

theorem put_eq {str : Ostream} (h : Steady str) (text : Bytes) :
    str.put text = str.after text false := by
  have hadjust : str.adjust ≠ .left := by
    rw [h.adjust]
    decide
  rw [Ostream.put, Ostream.after, h.width, Nat.zero_sub, List.replicate_zero, if_neg hadjust]
  cases str
  cases h.width
  rfl

/-- Four characters for a control character, in whichever case. -/
theorem controlDigits (uppercase : Bool) (n : Fin 32) :
    let text := (({ Ostream.fresh with base := .hex, uppercase }) : Ostream).digits n.val
    List.replicate (4 - text.length) 48 ++ text =
      [48, 48, hexDigit uppercase (n.val / 16), hexDigit uppercase (n.val % 16)] := by
  revert uppercase n
  decide +kernel

/-- A number on a stream that a control character has set up. -/
theorem putInteger_control {str : Ostream} (h : Steady str) (bits value : Nat)
    (hvalue : value < 2 ^ bits) :
    (((str.setw 4).setfill 48).hex).putInteger bits value =
      let text := (({ Ostream.fresh with base := .hex, uppercase := str.uppercase }) : Ostream).digits value
      str.after (List.replicate (4 - text.length) 48 ++ text) true := by
  have hmagnitude : ((value : Int) % 2 ^ bits).toNat = value := by
    rw [Int.emod_eq_of_lt (Int.natCast_nonneg value) (by exact_mod_cast hvalue), Int.toNat_natCast]
  have hlead : (((str.setw 4).setfill 48).hex).lead value = [] := by
    simp [Ostream.lead, Ostream.hex, Ostream.setfill, Ostream.setw, h.showbase]
  have hadjust : (((str.setw 4).setfill 48).hex).adjust = .right := h.adjust
  obtain ⟨written, base, fill, width, adjust, showbase, uppercase⟩ := str
  cases h.width
  simp only [Ostream.putInteger, hlead, hadjust, hmagnitude, List.nil_append]
  have hkept : Adjust.right = adjust := h.adjust.symm
  simp [Ostream.after, Ostream.hex, Ostream.setfill, Ostream.setw, Ostream.digits, hkept]

theorem control_eq {str : Ostream} (h : Steady str) {c : UInt8} (hc : c < 32) :
    ((((str.put (ascii "\\u")).setw 4).setfill 48).hex).putInteger 32 c.toNat =
      str.after [backslash, 117, 48, 48, hexDigit str.uppercase (c.toNat / 16),
        hexDigit str.uppercase (c.toNat % 16)] true := by
  have hlt : c.toNat < 32 := UInt8.lt_iff_toNat_lt.mp hc
  have hdigits := controlDigits str.uppercase ⟨c.toNat, hlt⟩
  rw [put_eq h, putInteger_control (h.after _ _) 32 c.toNat (by omega)]
  dsimp only [Ostream.after] at hdigits ⊢
  rw [hdigits]
  have htext : ascii "\\u" = [backslash, 117] := by decide +kernel
  simp [htext]

theorem jsonCharToStream_eq {str : Ostream} (h : Steady str) (c : UInt8) :
    jsonCharToStream str c = str.after (charText str.uppercase c) (IsControl c) := by
  by_cases hcontrol : IsControl c
  · obtain ⟨hlt, h8, h9, h10, h12, h13⟩ := id hcontrol
    have hquoted : ¬(c = 34 ∨ c = 92) := by
      rintro (rfl | rfl) <;> revert hlt <;> decide
    rw [jsonCharToStream, if_neg h8, if_neg h9, if_neg h10, if_neg h12, if_neg h13, if_neg hquoted,
      if_neg (UInt8.not_le.mpr hlt), control_eq h hlt, charText, if_pos hcontrol, decide_eq_true hcontrol]
  · have hput (text : Bytes) : str.put text = str.after text false := put_eq h text
    have hslash (text : Bytes) : (str.put (ascii "\\")).put text = str.after (backslash :: text) false := by
      have htext : ascii "\\" = [backslash] := by decide +kernel
      rw [hput, put_eq (h.after _ _), htext]
      simp [Ostream.after]
    rw [charText, if_neg hcontrol, decide_eq_false hcontrol, jsonCharToStream, hslash]
    have htext : ascii "\\b" = [backslash, 98] ∧ ascii "\\t" = [backslash, 116] ∧
        ascii "\\n" = [backslash, 110] ∧ ascii "\\f" = [backslash, 102] ∧
        ascii "\\r" = [backslash, 114] := by
      decide +kernel
    simp only [hput, htext]
    split_ifs with h8 h9 h10 h12 h13 hquoted hprint
    case neg => exact absurd ⟨UInt8.not_le.mp hprint, h8, h9, h10, h12, h13⟩ hcontrol
    all_goals rfl

/-! ### Reading it back -/

theorem hexValue_hexDigit (uppercase : Bool) (n : Fin 16) :
    hexValue (hexDigit uppercase n.val) = some n.val := by
  revert uppercase n
  decide

theorem hexDigit_plain (uppercase : Bool) (n : Fin 16) :
    hexDigit uppercase n.val ≠ quote ∧ hexDigit uppercase n.val ≠ backslash ∧
      32 ≤ hexDigit uppercase n.val := by
  revert uppercase n
  decide

/-- The two digits of a control character that are not zero. -/
theorem control_digits {c : UInt8} (h : IsControl c) :
    ∃ high low : Fin 16, c.toNat / 16 = high ∧ c.toNat % 16 = low := by
  have hlt : c.toNat < 32 := UInt8.lt_iff_toNat_lt.mp h.1
  exact ⟨⟨c.toNat / 16, by omega⟩, ⟨c.toNat % 16, by omega⟩, rfl, rfl⟩

theorem charText_control (uppercase : Bool) {c : UInt8} (h : IsControl c) :
    charText uppercase c =
      [backslash, 117, 48, 48, hexDigit uppercase (c.toNat / 16), hexDigit uppercase (c.toNat % 16)] := by
  rw [charText, if_pos h]

theorem charText_plain (uppercase : Bool) {c : UInt8} (h : c ≠ quote ∧ c ≠ backslash ∧ 32 ≤ c) :
    charText uppercase c = [c] := by
  obtain ⟨hquote, hbackslash, hprint⟩ := h
  have hne (d : UInt8) (hd : d < 32) : c ≠ d := by
    rintro rfl
    exact absurd hd (UInt8.not_lt.mpr hprint)
  have hquoted : ¬(c = 34 ∨ c = 92) := by
    rintro (hc | hc)
    · exact hquote hc
    · exact hbackslash hc
  rw [charText, if_neg fun hcontrol => absurd hcontrol.1 (UInt8.not_lt.mpr hprint),
    if_neg (hne 8 (by decide)), if_neg (hne 9 (by decide)), if_neg (hne 10 (by decide)),
    if_neg (hne 12 (by decide)), if_neg (hne 13 (by decide)), if_neg hquoted]

/-- The other characters are an escape of two characters. -/
theorem charText_cases (uppercase : Bool) (c : UInt8) :
    IsControl c ∨ (c ≠ quote ∧ c ≠ backslash ∧ 32 ≤ c) ∨
      ∃ code, charText uppercase c = [backslash, code] ∧ simpleEscapes.lookup code = some c ∧
        code ≠ 117 ∧ 32 ≤ code := by
  by_cases hcontrol : IsControl c
  · exact Or.inl hcontrol
  by_cases hplain : c ≠ quote ∧ c ≠ backslash ∧ 32 ≤ c
  · exact Or.inr (Or.inl hplain)
  apply Or.inr
  apply Or.inr
  rw [charText, if_neg hcontrol]
  split_ifs with h8 h9 h10 h12 h13 hquoted
  · exact ⟨98, rfl, by rw [h8]; decide⟩
  · exact ⟨116, rfl, by rw [h9]; decide⟩
  · exact ⟨110, rfl, by rw [h10]; decide⟩
  · exact ⟨102, rfl, by rw [h12]; decide⟩
  · exact ⟨114, rfl, by rw [h13]; decide⟩
  · rcases hquoted with rfl | rfl
    · exact ⟨34, rfl, by decide⟩
    · exact ⟨92, rfl, by decide⟩
  · have hprint : 32 ≤ c := by
      by_contra hlt
      exact hcontrol ⟨UInt8.not_le.mp hlt, h8, h9, h10, h12, h13⟩
    exact absurd ⟨fun h => hquoted (Or.inl h), fun h => hquoted (Or.inr h), hprint⟩ hplain

/-- What is written for a character is a JSON character again. -/
theorem readChar_charText (uppercase : Bool) (c : UInt8) (rest : Bytes) :
    readChar (charText uppercase c ++ rest) = some ([c], rest) := by
  rcases charText_cases uppercase c with hcontrol | hplain | ⟨code, htext, hcode, hne, -⟩
  · have hlt : c.toNat < 32 := UInt8.lt_iff_toNat_lt.mp hcontrol.1
    obtain ⟨high, low, hhigh, hlow⟩ := control_digits hcontrol
    have hzero : hexValue 48 = some 0 := by decide
    have hunit : readUnit (48 :: 48 :: hexDigit uppercase high :: hexDigit uppercase low :: rest) =
        some (c.toNat, rest) := by
      rw [readUnit, hzero, hexValue_hexDigit, hexValue_hexDigit]
      apply congrArg fun unit => some (unit, rest)
      omega
    have hutf8 : utf8 c.toNat = [c] := by
      rw [utf8, if_pos (by omega), UInt8.ofNat_toNat]
    rw [charText_control uppercase hcontrol, hhigh, hlow, List.cons_append, readChar, if_pos rfl,
      List.cons_append, readEscape, if_pos rfl, readUnicode]
    simp only [List.cons_append, List.nil_append, hunit, Option.bind_eq_bind, Option.bind_some]
    rw [if_neg (by omega), hutf8]
    rfl
  · rw [charText_plain uppercase hplain, List.cons_append, List.nil_append, readChar, if_neg hplain.2.1,
      if_neg]
    rintro (hquote | hlt)
    · exact hplain.1 hquote
    · exact absurd hlt (UInt8.not_lt.mpr hplain.2.2)
  · rw [htext, List.cons_append, readChar, if_pos rfl, List.cons_append, List.nil_append, readEscape,
      if_neg hne, hcode, Option.map_some]

theorem charText_escaped (uppercase : Bool) (c : UInt8) : Escaped (charText uppercase c) := by
  rcases charText_cases uppercase c with hcontrol | hplain | ⟨code, htext, -, -, hcode⟩
  · obtain ⟨high, low, hhigh, hlow⟩ := control_digits hcontrol
    have hzero : (48 : UInt8) ≠ quote ∧ (48 : UInt8) ≠ backslash ∧ (32 : UInt8) ≤ 48 := by decide
    rw [charText_control uppercase hcontrol, hhigh, hlow]
    exact ((((Escaped.pair (by decide)).append (Escaped.plain hzero)).append (Escaped.plain hzero)).append
      (Escaped.plain (hexDigit_plain uppercase high))).append (Escaped.plain (hexDigit_plain uppercase low))
  · rw [charText_plain uppercase hplain]
    exact Escaped.plain hplain
  · rw [htext]
    exact Escaped.pair hcode

theorem charText_ne_nil (uppercase : Bool) (c : UInt8) : charText uppercase c ≠ [] := by
  rw [charText]
  split_ifs <;> simp

theorem charText_head (uppercase : Bool) (c : UInt8) : (charText uppercase c).head? ≠ some quote := by
  rcases charText_cases uppercase c with hcontrol | hplain | ⟨code, htext, -⟩
  · rw [charText_control uppercase hcontrol]
    simp [quote, backslash]
  · rw [charText_plain uppercase hplain]
    simpa using hplain.1
  · rw [htext]
    simp [quote, backslash]

/-! ### Strings -/

theorem after_after (str : Ostream) (text more : Bytes) (control hex : Bool) :
    (str.after text control).after more hex = str.after (text ++ more) (control || hex) := by
  cases control <;> cases hex <;> simp [Ostream.after]

/-- What the stream becomes over a text. -/
theorem foldl_jsonCharToStream {str : Ostream} (h : Steady str) (t : Bytes) :
    t.foldl jsonCharToStream str =
      str.after (t.flatMap (charText str.uppercase)) (t.any fun c => IsControl c) := by
  induction t generalizing str with
  | nil => simp [Ostream.after]
  | cons c t ih =>
      have hcase : (str.after (charText str.uppercase c) (IsControl c)).uppercase = str.uppercase := rfl
      rw [List.foldl_cons, jsonCharToStream_eq h, ih (h.after _ _), after_after, hcase, List.flatMap_cons,
        List.any_cons]

/-- A string between its quotation marks. -/
def stringText (uppercase : Bool) (t : Bytes) : Bytes :=
  quote :: (t.flatMap (charText uppercase) ++ [quote])

theorem jsonToStream_eq {str : Ostream} (h : Steady str) (t : Bytes) :
    jsonToStream str t =
      str.after (stringText str.uppercase (cString t)) ((cString t).any fun c => IsControl c) := by
  have hquote : ascii "\"" = [quote] := by decide +kernel
  have hfirst := h.after [quote] false
  rw [jsonToStream, hquote, put_eq h, foldl_jsonCharToStream hfirst, put_eq (hfirst.after _ _),
    after_after, after_after, Bool.false_or, Bool.or_false, stringText]
  rfl

theorem reads_body (uppercase : Bool) (t : Bytes) : Reads (t.flatMap (charText uppercase)) t := by
  induction t with
  | nil => exact Reads.nil
  | cons c t ih => exact Reads.append (charText_ne_nil _ _) (charText_head _ _) (readChar_charText _ _) ih

theorem escaped_body (uppercase : Bool) (t : Bytes) : Escaped (t.flatMap (charText uppercase)) := by
  induction t with
  | nil => exact Escaped.nil
  | cons c t ih => exact (charText_escaped _ _).append ih

/-- What `jsonToStream` adds to a stream is one string literal of the text, in whatever state earlier
output has left the base and the fill character. -/
theorem jsonToStream_literal (str : Ostream) (hwidth : str.width = 0) (hadjust : str.adjust = .right)
    (hshowbase : str.showbase = false) (s : Bytes) (hs : 0 ∉ s) :
    ∃ body,
      (jsonToStream str s).written = str.written ++ quote :: (body ++ [quote]) ∧
        (∀ before after, body = before ++ quote :: after → escaping before = true) ∧
        (∀ c ∈ body, 32 ≤ c) ∧
        Literal (quote :: (body ++ [quote])) s := by
  have hescaped := escaped_body str.uppercase s
  refine ⟨s.flatMap (charText str.uppercase), ?_, hescaped.quotes, hescaped.printable,
    (reads_body str.uppercase s).literal⟩
  rw [jsonToStream_eq ⟨hwidth, hadjust, hshowbase⟩, cString_of_not_mem hs]
  rfl

/-- A text with a control character, on a stream that writes hexadecimal in upper case. -/
theorem jsonToStream_literal_control :
    let str := { Ostream.fresh with base := .hex, uppercase := true, fill := 42, written := ascii "[" }
    let s := 27 :: ascii "a\"b\n"
    ∃ body,
      (jsonToStream str s).written = str.written ++ quote :: (body ++ [quote]) ∧
        (∀ before after, body = before ++ quote :: after → escaping before = true) ∧
        (∀ c ∈ body, 32 ≤ c) ∧
        Literal (quote :: (body ++ [quote])) s :=
  jsonToStream_literal _ rfl rfl rfl _ (by decide +kernel)

/-! ### The overloads for text -/

/-- The stream has got one string literal of the text. -/
def AddsLiteral (str done : Ostream) (text : Bytes) : Prop :=
  ∃ literal, done.written = str.written ++ literal ∧ Literal literal text

/-- Both overloads write a literal of the text, and the one that is written for a `const char*` when that
can hold the text. -/
structure AgreesOnText (str : Ostream) (t : Streamable) : Prop where
  string : AddsLiteral str (jsonToStreamString str t.text) t.text
  object : AddsLiteral str (jsonToStreamObject str t) t.text
  same : 0 ∉ t.text →
    (jsonToStreamString str t.text).written = (jsonToStream str t.text).written ∧
      (jsonToStreamObject str t).written = (jsonToStream str t.text).written

theorem addsLiteral_iff {str done : Ostream} {text literal : Bytes}
    (h : done.written = str.written ++ literal) : AddsLiteral str done text ↔ Literal literal text := by
  constructor
  · rintro ⟨other, hother, hliteral⟩
    rwa [List.append_cancel_left (h.symm.trans hother)]
  · exact fun hliteral => ⟨literal, h, hliteral⟩

/-- `c_str()` keeps the text exactly when there is no NUL in it. -/
theorem jsonToStreamString_adds_iff {str : Ostream} (h : Steady str) (t : Bytes) :
    AddsLiteral str (jsonToStreamString str t) t ↔ 0 ∉ t := by
  have hwritten : (jsonToStreamString str t).written = str.written ++ stringText str.uppercase (cString t) := by
    rw [jsonToStreamString, jsonToStream_eq h]
    rfl
  have hliteral : Literal (stringText str.uppercase (cString t)) (cString t) :=
    (reads_body str.uppercase (cString t)).literal
  rw [addsLiteral_iff hwritten]
  constructor
  · intro ht hzero
    have hmem : 0 ∈ cString t := by rwa [hliteral.unique ht]
    have := List.mem_takeWhile_imp hmem
    simp at this
  · intro ht
    rw [cString_of_not_mem ht] at hliteral ⊢
    exact hliteral

theorem jsonToStreamObject_written {str : Ostream} (h : Steady str) (t : Streamable) :
    (jsonToStreamObject str t).written = str.written ++ quote :: (t.text ++ [quote]) := by
  have hquote : ascii "\"" = [quote] := by decide +kernel
  obtain ⟨hwritten, hwidth⟩ := t.prints (str.after [quote] false) h.width
  rw [jsonToStreamObject, hquote, put_eq h, Ostream.put, hwidth, hwritten]
  simp [Ostream.after]

/-- Nothing is escaped for an object, so its text must not need it. -/
theorem jsonToStreamObject_adds_iff {str : Ostream} (h : Steady str) (t : Streamable) :
    AddsLiteral str (jsonToStreamObject str t) t.text ↔
      ∀ c ∈ t.text, c ≠ quote ∧ c ≠ backslash ∧ 32 ≤ c := by
  rw [addsLiteral_iff (jsonToStreamObject_written h t), literal_quoted_iff]

theorem flatMap_charText_plain (uppercase : Bool) {t : Bytes}
    (h : ∀ c ∈ t, c ≠ quote ∧ c ≠ backslash ∧ 32 ≤ c) : t.flatMap (charText uppercase) = t := by
  induction t with
  | nil => rfl
  | cons c t ih =>
      rw [List.forall_mem_cons] at h
      rw [List.flatMap_cons, charText_plain uppercase h.1, ih h.2]
      rfl

/-- The ways of rendering text agree exactly when there is nothing in it to escape. -/
theorem agreesOnText_iff (str : Ostream) (h : Steady str) (t : Streamable) :
    AgreesOnText str t ↔ ∀ c ∈ t.text, c ≠ quote ∧ c ≠ backslash ∧ 32 ≤ c := by
  constructor
  · exact fun hagrees => (jsonToStreamObject_adds_iff h t).mp hagrees.object
  · intro ht
    have hzero : 0 ∉ t.text := fun hmem => absurd (ht 0 hmem).2.2 (by decide)
    exact {
      string := (jsonToStreamString_adds_iff h t.text).mpr hzero
      object := (jsonToStreamObject_adds_iff h t).mpr ht
      same := by
        intro _
        apply And.intro rfl
        rw [jsonToStreamObject_written h, jsonToStream_eq h, cString_of_not_mem hzero, Ostream.after,
          stringText, flatMap_charText_plain _ ht] }

/-- An object whose `operator<<` writes this text. -/
def Streamable.ofText (text : Bytes) : Streamable where
  text := text
  print := fun str => str.put text
  prints := by
    intro str hwidth
    rw [Ostream.put, hwidth, Nat.zero_sub, List.replicate_zero]
    simp

theorem agreesOnText_iff_object :
    AgreesOnText Ostream.fresh (Streamable.ofText (ascii "This is object 2")) ↔
      ∀ c ∈ ascii "This is object 2", c ≠ quote ∧ c ≠ backslash ∧ 32 ≤ c :=
  agreesOnText_iff _ ⟨rfl, rfl, rfl⟩ (Streamable.ofText (ascii "This is object 2"))

/-- An object that prints a quotation mark makes three of them. -/
theorem agreesOnText_quote : ¬AgreesOnText Ostream.fresh (Streamable.ofText [quote]) := by
  rintro ⟨-, hobject, -⟩
  rw [jsonToStreamObject_adds_iff ⟨rfl, rfl, rfl⟩] at hobject
  exact (hobject quote (by decide)).1 rfl

end Seasocks
