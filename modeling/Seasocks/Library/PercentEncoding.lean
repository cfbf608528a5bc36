import Seasocks.Library.Hexadecimal

/-!
# Percent-encoding

The text of a component of a URI: a byte is written as itself, as `%XX`, or, when it is a space, as `+`.
Decoding is one pass from left to right, in which a decoded byte is never looked at again.
-/

namespace PercentEncoding

open Hexadecimal

/-- The character `%`. -/
def percent : UInt8 := 37

/-- The character `+`. -/
def plus : UInt8 := 43

def space : UInt8 := 32

def plusToSpace (c : UInt8) : UInt8 := if c = plus then space else c

def decode : List UInt8 → Option (List UInt8)
  | [] => some []
  | c :: text =>
      if c = percent then
        match text with
        | high :: low :: text => do
            let h ← hexValue high
            let l ← hexValue low
            let bytes ← decode text
            return UInt8.ofNat (16 * h + l) :: bytes
        | _ => none
      else (decode text).map (plusToSpace c :: ·)

@[simp]
theorem decode_nil : decode [] = some [] := by
  rw [decode]

theorem decode_cons {c : UInt8} (h : c ≠ percent) (text : List UInt8) :
    decode (c :: text) = (decode text).map (plusToSpace c :: ·) := by
  rw [decode.eq_def]
  exact if_neg h

theorem decode_escape {high low : UInt8} {h l : Nat} (hhigh : hexValue high = some h)
    (hlow : hexValue low = some l) (text : List UInt8) :
    decode (percent :: high :: low :: text) =
      (decode text).map (UInt8.ofNat (16 * h + l) :: ·) := by
  rw [decode.eq_def]
  apply (if_pos rfl).trans
  simp only [hhigh, hlow]
  cases decode text <;> rfl

/-- Two hexadecimal digits at the front. -/
def BeginsHex : List UInt8 → Prop
  | high :: low :: _ => (hexValue high).isSome ∧ (hexValue low).isSome
  | _ => False

theorem decode_of_not_beginsHex {text : List UInt8} (h : ¬ BeginsHex text) :
    decode (percent :: text) = none := by
  rw [decode.eq_def]
  apply (if_pos rfl).trans
  match text with
  | [] => rfl
  | [_] => rfl
  | high :: low :: text =>
      cases hhigh : hexValue high with
      | none => simp only [hhigh, Option.bind_eq_bind, Option.bind_none]
      | some h' =>
          cases hlow : hexValue low with
          | none => simp only [hhigh, hlow, Option.bind_eq_bind, Option.bind_some, Option.bind_none]
          | some => exact absurd (And.intro (by rw [hhigh]; rfl) (by rw [hlow]; rfl)) h

theorem exists_digits_of_beginsHex {text : List UInt8} (h : BeginsHex text) :
    ∃ high low more h l, text = high :: low :: more ∧ hexValue high = some h ∧
      hexValue low = some l := by
  match text, h with
  | high :: low :: more, h =>
      obtain ⟨h', hhigh⟩ := Option.isSome_iff_exists.mp h.1
      obtain ⟨l, hlow⟩ := Option.isSome_iff_exists.mp h.2
      exact ⟨high, low, more, h', l, rfl, hhigh, hlow⟩

/-- What is in front of the first `%` is only looked at for `+`. -/
theorem decode_append {before : List UInt8} (h : percent ∉ before) (after : List UInt8) :
    decode (before ++ after) = (decode after).map (before.map plusToSpace ++ ·) := by
  induction before with
  | nil =>
      rw [List.nil_append]
      cases decode after <;> rfl
  | cons c before ih =>
      have hc : c ≠ percent := fun hc => h (hc ▸ List.mem_cons_self)
      rw [List.cons_append, decode_cons hc, ih (fun hmem => h (List.mem_cons_of_mem c hmem))]
      cases decode after <;> rfl

theorem decode_of_not_mem {text : List UInt8} (h : percent ∉ text) :
    decode text = some (text.map plusToSpace) := by
  have hdecode := decode_append h []
  rwa [List.append_nil, decode_nil, Option.map_some, List.append_nil] at hdecode

/-- A `%` that two hexadecimal digits do not follow. -/
def BadEscape (text : List UInt8) : Prop :=
  ∃ before after, text = before ++ percent :: after ∧ ¬ BeginsHex after

theorem hexValue_percent : hexValue percent = none := by decide

/-- An escape is as good as what is behind it: its digits are no `%`. -/
theorem badEscape_escape_iff {high low : UInt8} {text : List UInt8}
    (h : BeginsHex (high :: low :: text)) :
    BadEscape (percent :: high :: low :: text) ↔ BadEscape text := by
  have hne : ∀ {c : UInt8}, (hexValue c).isSome → c ≠ percent := by
    rintro c hc rfl
    rw [hexValue_percent] at hc
    cases hc
  constructor
  · rintro ⟨before, after, htext, hbad⟩
    match before, htext with
    | [], htext =>
        rw [List.nil_append, List.cons.injEq] at htext
        exact absurd (htext.2 ▸ h) hbad
    | [_], htext =>
        simp only [List.singleton_append, List.cons.injEq] at htext
        exact absurd htext.2.1 (hne h.1)
    | [_, _], htext =>
        simp only [List.cons_append, List.nil_append, List.cons.injEq] at htext
        exact absurd htext.2.2.1 (hne h.2)
    | _ :: _ :: _ :: before, htext =>
        simp only [List.cons_append, List.cons.injEq] at htext
        exact ⟨before, after, htext.2.2.2, hbad⟩
  · rintro ⟨before, after, rfl, hbad⟩
    exact ⟨percent :: high :: low :: before, after, rfl, hbad⟩

theorem badEscape_cons_iff {c : UInt8} (hc : c ≠ percent) {text : List UInt8} :
    BadEscape (c :: text) ↔ BadEscape text := by
  constructor
  · rintro ⟨before, after, htext, hbad⟩
    match before, htext with
    | [], htext => exact absurd (List.cons.inj htext).1 hc
    | _ :: before, htext => exact ⟨before, after, (List.cons.inj htext).2, hbad⟩
  · rintro ⟨before, after, rfl, hbad⟩
    exact ⟨c :: before, after, rfl, hbad⟩

/-- A text by what a pass over it meets first. -/
theorem text_induction {motive : List UInt8 → Prop} (nil : motive [])
    (plain : ∀ c text, c ≠ percent → motive text → motive (c :: text))
    (escape : ∀ high low text, BeginsHex (high :: low :: text) → motive text →
      motive (percent :: high :: low :: text))
    (bad : ∀ text, ¬ BeginsHex text → motive (percent :: text)) (text : List UInt8) :
    motive text := by
  induction h : text.length using Nat.strongRecOn generalizing text with
  | ind n ih =>
      match text with
      | [] => exact nil
      | c :: text =>
          by_cases hc : c = percent
          · subst hc
            by_cases hhex : BeginsHex text
            · match text, hhex with
              | high :: low :: text, hhex =>
                  apply escape high low text hhex
                  exact ih text.length (by simp only [List.length_cons] at h; omega) text rfl
            · exact bad text hhex
          · apply plain c text hc
            exact ih text.length (by simp only [List.length_cons] at h; omega) text rfl

/-- Decoding fails exactly at a bad escape. -/
theorem decode_eq_none_iff (text : List UInt8) : decode text = none ↔ BadEscape text := by
  induction text using text_induction with
  | nil => simp [BadEscape]
  | plain c text hc ih => rw [decode_cons hc, Option.map_eq_none_iff, badEscape_cons_iff hc, ih]
  | escape high low text hhex ih =>
      obtain ⟨h, hhigh⟩ := Option.isSome_iff_exists.mp hhex.1
      obtain ⟨l, hlow⟩ := Option.isSome_iff_exists.mp hhex.2
      rw [decode_escape hhigh hlow, Option.map_eq_none_iff, badEscape_escape_iff hhex, ih]
  | bad text hhex => exact iff_of_true (decode_of_not_beginsHex hhex) ⟨[], text, rfl, hhex⟩

theorem plusToSpace_of_ne {c : UInt8} (h : c ≠ plus) : plusToSpace c = c := if_neg h

theorem plusToSpace_plusToSpace (c : UInt8) : plusToSpace (plusToSpace c) = plusToSpace c := by
  by_cases h : c = plus
  · rw [h]
    rfl
  · rw [plusToSpace_of_ne h, plusToSpace_of_ne h]

theorem plusToSpace_ne_percent {c : UInt8} (h : c ≠ percent) : plusToSpace c ≠ percent := by
  rw [plusToSpace]
  split_ifs
  · decide
  · exact h

theorem hexValue_plusToSpace (c : UInt8) : hexValue (plusToSpace c) = hexValue c := by
  by_cases h : c = plus
  · rw [h]
    rfl
  · rw [plusToSpace_of_ne h]

theorem beginsHex_map {text : List UInt8} : BeginsHex (text.map plusToSpace) ↔ BeginsHex text := by
  match text with
  | [] => exact Iff.rfl
  | [_] => exact Iff.rfl
  | high :: low :: text => simp only [BeginsHex, List.map_cons, hexValue_plusToSpace]

/-- Replacing the `+` first makes no difference. -/
theorem decode_map_plusToSpace (text : List UInt8) : decode (text.map plusToSpace) = decode text := by
  induction text using text_induction with
  | nil => rfl
  | plain c text hc ih =>
      rw [List.map_cons, decode_cons (plusToSpace_ne_percent hc), decode_cons hc, ih,
        plusToSpace_plusToSpace]
  | escape high low text hhex ih =>
      obtain ⟨h, hhigh⟩ := Option.isSome_iff_exists.mp hhex.1
      obtain ⟨l, hlow⟩ := Option.isSome_iff_exists.mp hhex.2
      have hpercent : plusToSpace percent = percent := by decide
      rw [List.map_cons, List.map_cons, List.map_cons, hpercent,
        decode_escape ((hexValue_plusToSpace high).trans hhigh) ((hexValue_plusToSpace low).trans hlow),
        decode_escape hhigh hlow, ih]
  | bad text hhex =>
      have hpercent : plusToSpace percent = percent := by decide
      rw [List.map_cons, hpercent, decode_of_not_beginsHex (mt beginsHex_map.mp hhex),
        decode_of_not_beginsHex hhex]

/-! ### Encoding -/

/-- The bytes that may be written as themselves: letters, digits and `-._~`. -/
def Unreserved (b : UInt8) : Prop :=
  48 ≤ b ∧ b ≤ 57 ∨ 65 ≤ b ∧ b ≤ 90 ∨ 97 ≤ b ∧ b ≤ 122 ∨ b = 45 ∨ b = 46 ∨ b = 95 ∨ b = 126

instance (b : UInt8) : Decidable (Unreserved b) :=
  inferInstanceAs (Decidable (48 ≤ b ∧ b ≤ 57 ∨ 65 ≤ b ∧ b ≤ 90 ∨ 97 ≤ b ∧ b ≤ 122 ∨ b = 45 ∨
    b = 46 ∨ b = 95 ∨ b = 126))

/-- The texts of a byte. The digits of an escape may be in either case. -/
inductive EncodesByte (b : UInt8) : List UInt8 → Prop
  | unreserved (h : Unreserved b) : EncodesByte b [b]
  | escape {high low : UInt8} (hhigh : hexValue high = some (b.toNat / 16))
      (hlow : hexValue low = some (b.toNat % 16)) : EncodesByte b [percent, high, low]
  | plus (h : b = space) : EncodesByte b [plus]

/-- The texts of a component. -/
inductive Encodes : List UInt8 → List UInt8 → Prop
  | nil : Encodes [] []
  | cons {b : UInt8} {bytes text texts : List UInt8} (hbyte : EncodesByte b text)
      (hbytes : Encodes bytes texts) : Encodes (b :: bytes) (text ++ texts)

theorem decode_encodesByte {b : UInt8} {text : List UInt8} (h : EncodesByte b text)
    (more : List UInt8) : decode (text ++ more) = (decode more).map (b :: ·) := by
  cases h with
  | unreserved h =>
      have hpercent : b ≠ percent := by
        rintro rfl
        exact absurd h (by decide)
      have hplus : b ≠ plus := by
        rintro rfl
        exact absurd h (by decide)
      rw [List.singleton_append, decode_cons hpercent, plusToSpace_of_ne hplus]
  | escape hhigh hlow =>
      have hvalue : UInt8.ofNat (16 * (b.toNat / 16) + b.toNat % 16) = b := by
        rw [Nat.div_add_mod, UInt8.ofNat_toNat]
      rw [List.cons_append, List.cons_append, List.singleton_append, decode_escape hhigh hlow, hvalue]
  | plus h =>
      rw [h, List.singleton_append, decode_cons (by decide)]
      rfl

theorem decode_encodes {bytes text : List UInt8} (h : Encodes bytes text) :
    decode text = some bytes := by
  induction h with
  | nil => exact decode_nil
  | cons hbyte _ ih => rw [decode_encodesByte hbyte, ih, Option.map_some]

/-- The characters of an encoded component. -/
def Plain (c : UInt8) : Prop := Unreserved c ∨ c = percent ∨ c = plus ∨ (hexValue c).isSome

instance (c : UInt8) : Decidable (Plain c) :=
  inferInstanceAs (Decidable (Unreserved c ∨ c = percent ∨ c = plus ∨ (hexValue c).isSome))

theorem plain_of_mem_encodes {bytes text : List UInt8} (h : Encodes bytes text) :
    ∀ c ∈ text, Plain c := by
  induction h with
  | nil => simp
  | cons hbyte _ ih =>
      intro c hc
      rcases List.mem_append.mp hc with hc | hc
      · cases hbyte with
        | unreserved h => exact Or.inl (List.mem_singleton.mp hc ▸ h)
        | escape hhigh hlow =>
            simp only [List.mem_cons, List.not_mem_nil, or_false] at hc
            rcases hc with rfl | rfl | rfl
            · exact Or.inr (Or.inl rfl)
            · exact Or.inr (Or.inr (Or.inr (by rw [hhigh]; rfl)))
            · exact Or.inr (Or.inr (Or.inr (by rw [hlow]; rfl)))
        | plus h => exact Or.inr (Or.inr (Or.inl (List.mem_singleton.mp hc)))
      · exact ih c hc

/-- A separator does not occur in an encoded component. -/
theorem not_mem_of_encodes {bytes text : List UInt8} (h : Encodes bytes text) {c : UInt8}
    (hc : ¬ Plain c) : c ∉ text :=
  fun hmem => hc (plain_of_mem_encodes h c hmem)

theorem encodes_nil_iff {bytes : List UInt8} : Encodes bytes [] ↔ bytes = [] := by
  constructor
  · intro h
    have hdecode := decode_encodes h
    rw [decode_nil] at hdecode
    exact (Option.some.inj hdecode).symm
  · rintro rfl
    exact .nil

end PercentEncoding
