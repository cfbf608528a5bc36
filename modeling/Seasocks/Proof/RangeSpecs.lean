import Mathlib.Data.List.Forall2
import Seasocks.Proof.Ranges

/-!
# Byte-range sets

Which `Range` headers `parseRanges` accepts, and with which ranges, beside the byte-range sets.
-/

namespace Seasocks

variable {text header : Bytes} {range range' : Range} {ranges : List Range}

/-! ### Range specs -/

def Numeral (bound : Nat) (digits : Bytes) : Prop := Digits digits ∧ digitsValue digits < bound

/-- A range spec, and the range it stands for. The numbers are below `bound`, the length of a suffix is
below `suffixBound`. -/
inductive RangeSpec (bound suffixBound : Nat) : Bytes → Range → Prop where
  | closed {a b : Bytes} (ha : Numeral bound a) (hb : Numeral bound b) :
      RangeSpec bound suffixBound (a ++ 45 :: b) ⟨digitsValue a, digitsValue b⟩
  | «open» {a : Bytes} (ha : Numeral bound a) :
      RangeSpec bound suffixBound (a ++ [45]) ⟨digitsValue a, longMax⟩
  | suffix {n : Bytes} (hn : Numeral suffixBound n) :
      RangeSpec bound suffixBound (45 :: n) ⟨-digitsValue n, longMax⟩

/-- The specs whose numbers are at most `LONG_MAX`. -/
abbrev LongSpec : Bytes → Range → Prop := RangeSpec (2 ^ 63) (2 ^ 63)

/-- The specs whose numbers fit in an `int`. -/
abbrev IntSpec : Bytes → Range → Prop := RangeSpec (2 ^ 31) (2 ^ 31 + 1)

/-- `header` is `bytes=` and specs between commas, which stand for `ranges`. -/
def ByteRangeSet (header : Bytes) (ranges : List Range) : Prop :=
  ∃ texts, header = expectedPrefix ++ [44].intercalate texts ∧ texts ≠ [] ∧
    List.Forall₂ LongSpec texts ranges

/-- `parseRanges` accepts `header` exactly if it is a byte-range set, with the ranges of that. -/
def ParsesExactly (header : Bytes) : Prop :=
  ∀ ranges, parseRanges header = .ok (some ranges) ↔ ByteRangeSet header ranges

/-! ### What is accepted -/

/-- The texts `std::stoi` converts: blanks, at most one sign, digits, and anything behind them. -/
inductive IntText : Bytes → Int → Prop where
  | intro {blanks sign digits junk : Bytes} (hblanks : ∀ c ∈ blanks, isspace c = true)
      (hsign : sign = [] ∨ sign = [43] ∨ sign = [45]) (hdigits : Digits digits)
      (hjunk : ∀ c ∈ junk.head?, isdigit c = false)
      (hlow : -2 ^ 31 ≤ signedValue sign digits) (hhigh : signedValue sign digits < 2 ^ 31) :
      IntText (blanks ++ (sign ++ (digits ++ junk))) (signedValue sign digits)

/-- The texts `parseRange` accepts: the first `-` is the sign of a number, or has a number before it and
nothing or another number behind it. -/
inductive LooseSpec : Bytes → Range → Prop where
  | closed {before after : Bytes} {start «end» : Int} (hminus : 45 ∉ before)
      (hstart : IntText before start) (hend : IntText after «end») :
      LooseSpec (before ++ 45 :: after) ⟨start, «end»⟩
  | «open» {before : Bytes} {start : Int} (hminus : 45 ∉ before) (hstart : IntText before start) :
      LooseSpec (before ++ [45]) ⟨start, longMax⟩
  | suffix {rest : Bytes} {start : Int} (hstart : IntText (45 :: rest) start) :
      LooseSpec (45 :: rest) ⟨start, longMax⟩

theorem exists_sign (s : Bytes) : ∃ sign rest, s = sign ++ rest ∧
    (sign = [] ∨ sign = [43] ∨ sign = [45]) ∧
    (if (s.head? == some 45) || s.head? == some 43 then s.tail else s) = rest := by
  by_cases hminus : s.head? = some 45
  · obtain ⟨rest, rfl⟩ := List.head?_eq_some_iff.mp hminus
    exact ⟨[45], rest, rfl, Or.inr (Or.inr rfl), rfl⟩
  by_cases hplus : s.head? = some 43
  · obtain ⟨rest, rfl⟩ := List.head?_eq_some_iff.mp hplus
    exact ⟨[43], rest, rfl, Or.inr (Or.inl rfl), rfl⟩
  · exact ⟨[], s, rfl, Or.inl rfl, by simp [hminus, hplus]⟩

theorem isdigit_of_mem_junk {s : Bytes} {c : UInt8} (h : c ∈ (s.dropWhile isdigit).head?) :
    isdigit c = false := by
  have := List.head?_dropWhile_not isdigit s
  rw [Option.mem_def.mp h] at this
  exact this

theorem stoi_eq_ok_iff {s : Bytes} {value : Int} : stoi s = .ok value ↔ IntText s value := by
  constructor
  · intro h
    obtain ⟨sign, rest, hs, hsign, hrest⟩ := exists_sign (s.dropWhile isspace)
    have hblanks : ∀ c ∈ s.takeWhile isspace, isspace c = true := fun c => List.mem_takeWhile_imp
    have hdigits : ∀ c ∈ rest.takeWhile isdigit, isdigit c = true := fun c => List.mem_takeWhile_imp
    have htext : s = s.takeWhile isspace ++
        (sign ++ (rest.takeWhile isdigit ++ rest.dropWhile isdigit)) := by
      rw [List.takeWhile_append_dropWhile, ← hs, List.takeWhile_append_dropWhile]
    by_cases hempty : rest.takeWhile isdigit = []
    · have hfails : stoi s = .error .invalidArgument := by
        rw [stoi, hrest, if_pos hempty]
      rw [hfails] at h
      cases h
    · rw [htext, stoi_scan hblanks hsign ⟨hempty, hdigits⟩ fun c => isdigit_of_mem_junk] at h
      split_ifs at h with hrange
      injection h with h
      rw [htext, ← h]
      exact IntText.intro hblanks hsign ⟨hempty, hdigits⟩ (fun c => isdigit_of_mem_junk)
        (by omega) (by omega)
  · rintro ⟨hblanks, hsign, hdigits, hjunk, hlow, hhigh⟩
    rw [stoi_scan hblanks hsign hdigits hjunk, if_neg (by omega)]

theorem stoi_nil : stoi [] = .error .invalidArgument := rfl

section Forms

variable {before after : Bytes}

theorem parseRange_suffix (rest : Bytes) :
    parseRange (45 :: rest) = .ok (some range) ↔
      ∃ start, stoi (45 :: rest) = .ok start ∧ range = ⟨start, longMax⟩ := by
  have hpos : (45 :: rest).idxOf? 45 = some 0 := @idxOf?_append_cons 45 [] (by simp) rest
  rw [parseRange, hpos]
  dsimp only
  cases stoi (45 :: rest) with
  | error e => simp [Bind.bind, Except.bind]
  | ok start => simp [Bind.bind, Except.bind, Pure.pure, Except.pure, eq_comm]

theorem parseRange_open (hminus : 45 ∉ before) (hne : before ≠ []) :
    parseRange (before ++ [45]) = .ok (some range) ↔
      ∃ start, stoi before = .ok start ∧ range = ⟨start, longMax⟩ := by
  have hlast : before.length = (before ++ [45]).length - 1 := by simp
  rw [parseRange, idxOf?_append_cons hminus]
  dsimp only
  rw [if_neg (by simpa using hne), List.take_left]
  simp only [if_pos hlast]
  cases stoi before with
  | error e => simp [Bind.bind, Except.bind]
  | ok start => simp [Bind.bind, Except.bind, Pure.pure, Except.pure, eq_comm]

theorem parseRange_closed (hminus : 45 ∉ before) (hne : before ≠ []) (hafter : after ≠ []) :
    parseRange (before ++ 45 :: after) = .ok (some range) ↔
      ∃ start «end», stoi before = .ok start ∧ stoi after = .ok «end» ∧ range = ⟨start, «end»⟩ := by
  have hlast : ¬ before.length = (before ++ 45 :: after).length - 1 := by
    have := List.length_pos_iff.mpr hafter
    rw [List.length_append, List.length_cons]
    omega
  have hdrop : (before ++ 45 :: after).drop (before.length + 1) = after := by
    rw [← List.drop_drop, List.drop_left]
    rfl
  rw [parseRange, idxOf?_append_cons hminus]
  dsimp only
  rw [if_neg (by simpa using hne), List.take_left]
  simp only [if_neg hlast, hdrop]
  cases stoi before with
  | error e => simp [Bind.bind, Except.bind]
  | ok start =>
      cases stoi after with
      | error e => simp [Bind.bind, Except.bind]
      | ok «end» => simp [Bind.bind, Except.bind, Pure.pure, Except.pure, eq_comm]

end Forms

theorem IntText.ne_nil {s : Bytes} {value : Int} (h : IntText s value) : s ≠ [] := by
  rintro rfl
  have := stoi_eq_ok_iff.mpr h
  rw [stoi_nil] at this
  cases this

theorem parseRange_eq_some_iff : parseRange text = .ok (some range) ↔ LooseSpec text range := by
  constructor
  · intro h
    by_cases hminus : 45 ∈ text
    · obtain ⟨before, after, rfl, hbefore⟩ := List.eq_append_cons_of_mem hminus
      by_cases hne : before = []
      · subst hne
        obtain ⟨start, hstart, rfl⟩ := (parseRange_suffix after).mp h
        exact LooseSpec.suffix (stoi_eq_ok_iff.mp hstart)
      by_cases hafter : after = []
      · subst hafter
        obtain ⟨start, hstart, rfl⟩ := (parseRange_open hbefore hne).mp h
        exact LooseSpec.open hbefore (stoi_eq_ok_iff.mp hstart)
      · obtain ⟨start, last, hstart, hend, rfl⟩ := (parseRange_closed hbefore hne hafter).mp h
        exact LooseSpec.closed hbefore (stoi_eq_ok_iff.mp hstart) (stoi_eq_ok_iff.mp hend)
    · rw [parseRange_eq_none hminus] at h
      cases h
  · intro h
    cases h with
    | closed hminus hstart hend =>
        exact (parseRange_closed hminus hstart.ne_nil hend.ne_nil).mpr
          ⟨_, _, stoi_eq_ok_iff.mpr hstart, stoi_eq_ok_iff.mpr hend, rfl⟩
    | «open» hminus hstart =>
        exact (parseRange_open hminus hstart.ne_nil).mpr ⟨_, stoi_eq_ok_iff.mpr hstart, rfl⟩
    | suffix hstart => exact (parseRange_suffix _).mpr ⟨_, stoi_eq_ok_iff.mpr hstart, rfl⟩

/-! ### Specs that are accepted -/

theorem Digits.not_mem {digits : Bytes} {c : UInt8} (h : Digits digits) (hc : isdigit c = false) :
    c ∉ digits :=
  fun hmem => ne_of_isdigit (h.2 c hmem) hc rfl

theorem RangeSpec.mono {bound suffixBound bound' suffixBound' : Nat} (hbound : bound ≤ bound')
    (hsuffix : suffixBound ≤ suffixBound') (h : RangeSpec bound suffixBound text range) :
    RangeSpec bound' suffixBound' text range := by
  cases h with
  | closed ha hb => exact .closed ⟨ha.1, ha.2.trans_le hbound⟩ ⟨hb.1, hb.2.trans_le hbound⟩
  | «open» ha => exact .open ⟨ha.1, ha.2.trans_le hbound⟩
  | suffix hn => exact .suffix ⟨hn.1, hn.2.trans_le hsuffix⟩

theorem stoi_digits_eq_ok_iff {digits : Bytes} (h : Digits digits) {value : Int} :
    stoi digits = .ok value ↔ digitsValue digits < 2 ^ 31 ∧ value = digitsValue digits := by
  rw [stoi_digits h]
  split_ifs with hsmall
  · simp only [hsmall, Except.ok.injEq, true_and]
    exact eq_comm
  · simp only [hsmall, false_and]

theorem stoi_minus_eq_ok_iff {digits : Bytes} (h : Digits digits) {value : Int} :
    stoi (45 :: digits) = .ok value ↔
      digitsValue digits < 2 ^ 31 + 1 ∧ value = -digitsValue digits := by
  have hvalue : signedValue [45] digits = -digitsValue digits := if_pos rfl
  have hsigned := stoi_signed (Or.inr (Or.inr rfl)) h
  rw [List.singleton_append, hvalue] at hsigned
  rw [hsigned]
  split_ifs with hrange
  · constructor
    · intro h
      cases h
    · rintro ⟨hsmall, -⟩
      omega
  · constructor
    · intro h
      injection h with h
      exact ⟨by omega, h.symm⟩
    · rintro ⟨-, rfl⟩
      rfl

theorem parseRange_of_intSpec (h : IntSpec text range) : parseRange text = .ok (some range) := by
  cases h with
  | closed ha hb =>
      refine (parseRange_closed (ha.1.not_mem (by decide)) ha.1.1 hb.1.1).mpr ⟨_, _, ?_, ?_, rfl⟩
      · exact (stoi_digits_eq_ok_iff ha.1).mpr ⟨ha.2, rfl⟩
      · exact (stoi_digits_eq_ok_iff hb.1).mpr ⟨hb.2, rfl⟩
  | «open» ha =>
      refine (parseRange_open (ha.1.not_mem (by decide)) ha.1.1).mpr ⟨_, ?_, rfl⟩
      exact (stoi_digits_eq_ok_iff ha.1).mpr ⟨ha.2, rfl⟩
  | suffix hn =>
      refine (parseRange_suffix _).mpr ⟨_, ?_, rfl⟩
      exact (stoi_minus_eq_ok_iff hn.1).mpr ⟨hn.2, rfl⟩

/-- A spec is accepted only if its numbers fit in an `int`, and then as it is meant. -/
theorem RangeSpec.intSpec {bound suffixBound : Nat} (h : RangeSpec bound suffixBound text range)
    (hparse : parseRange text = .ok (some range')) : IntSpec text range ∧ range' = range := by
  cases h with
  | closed ha hb =>
      obtain ⟨start, last, hstart, hend, rfl⟩ :=
        (parseRange_closed (ha.1.not_mem (by decide)) ha.1.1 hb.1.1).mp hparse
      obtain ⟨hsmall, rfl⟩ := (stoi_digits_eq_ok_iff ha.1).mp hstart
      obtain ⟨hsmall', rfl⟩ := (stoi_digits_eq_ok_iff hb.1).mp hend
      exact ⟨.closed ⟨ha.1, hsmall⟩ ⟨hb.1, hsmall'⟩, rfl⟩
  | «open» ha =>
      obtain ⟨start, hstart, rfl⟩ :=
        (parseRange_open (ha.1.not_mem (by decide)) ha.1.1).mp hparse
      obtain ⟨hsmall, rfl⟩ := (stoi_digits_eq_ok_iff ha.1).mp hstart
      exact ⟨.open ⟨ha.1, hsmall⟩, rfl⟩
  | suffix hn =>
      obtain ⟨start, hstart, rfl⟩ := (parseRange_suffix _).mp hparse
      obtain ⟨hsmall, rfl⟩ := (stoi_minus_eq_ok_iff hn.1).mp hstart
      exact ⟨.suffix ⟨hn.1, hsmall⟩, rfl⟩

theorem RangeSpec.not_mem_comma {bound suffixBound : Nat}
    (h : RangeSpec bound suffixBound text range) : 44 ∉ text := by
  cases h with
  | closed ha hb => simp [ha.1.not_mem (c := 44) (by decide), hb.1.not_mem (c := 44) (by decide)]
  | «open» ha => simp [ha.1.not_mem (c := 44) (by decide)]
  | suffix hn => simp [hn.1.not_mem (c := 44) (by decide)]

theorem RangeSpec.ne_nil {bound suffixBound : Nat} (h : RangeSpec bound suffixBound text range) :
    text ≠ [] := by
  cases h with
  | closed ha hb => simp
  | «open» ha => simp
  | suffix hn => simp

theorem longSpec_of_intSpec (h : IntSpec text range) : LongSpec text range :=
  h.mono (by decide) (by decide)

/-! ### Lists of specs -/

section Forall₂

variable {α β : Type} {R S : α → β → Prop}

theorem exists_forall₂_iff {as : List α} :
    (∃ bs, List.Forall₂ R as bs) ↔ ∀ a ∈ as, ∃ b, R a b := by
  induction as with
  | nil => simp
  | cons a as ih =>
      rw [List.forall_mem_cons, ← ih]
      constructor
      · rintro ⟨bs, hbs⟩
        cases hbs with
        | cons hhead htail => exact ⟨⟨_, hhead⟩, ⟨_, htail⟩⟩
      · rintro ⟨⟨b, hb⟩, bs, hbs⟩
        exact ⟨b :: bs, .cons hb hbs⟩

theorem forall₂_congr_of_mem {as : List α} {bs : List β} (h : ∀ a ∈ as, ∀ b, R a b ↔ S a b) :
    List.Forall₂ R as bs ↔ List.Forall₂ S as bs := by
  induction as generalizing bs with
  | nil => simp
  | cons a as ih =>
      rw [List.forall_mem_cons] at h
      cases bs with
      | nil => simp
      | cons b bs => rw [List.forall₂_cons, List.forall₂_cons, h.1 b, ih h.2]

/-- Two partial functions agree on a list exactly if they agree on each of its members, or both of them are
undefined on one. -/
theorem forall_forall₂_iff {as : List α} (hagree : ∀ a b b', R a b → S a b' → b = b') :
    (∀ bs, List.Forall₂ R as bs ↔ List.Forall₂ S as bs) ↔
      (∀ a ∈ as, ∃ b, R a b ∧ S a b) ∨ (∃ a ∈ as, ∀ b, ¬ S a b) ∧ ∃ a ∈ as, ∀ b, ¬ R a b := by
  have undefined : ∀ {T : α → β → Prop}, (¬ ∃ bs, List.Forall₂ T as bs) ↔ ∃ a ∈ as, ∀ b, ¬ T a b := by
    intro T
    rw [exists_forall₂_iff]
    push Not
    rfl
  constructor
  · intro h
    by_cases hdefined : ∃ bs, List.Forall₂ S as bs
    · obtain ⟨bs, hbs⟩ := hdefined
      have hboth : List.Forall₂ (fun a b => R a b ∧ S a b) as bs :=
        List.Forall₂.mp (fun _ _ => And.intro) ((h bs).mpr hbs) hbs
      exact Or.inl (exists_forall₂_iff.mp ⟨bs, hboth⟩)
    · refine Or.inr ⟨undefined.mp hdefined, undefined.mp ?_⟩
      rintro ⟨bs, hbs⟩
      exact hdefined ⟨bs, (h bs).mp hbs⟩
  · rintro (hall | ⟨hS, hR⟩) bs
    · apply forall₂_congr_of_mem
      intro a ha b
      obtain ⟨b', hb', hb''⟩ := hall a ha
      constructor
      · intro h
        rw [hagree a b b' h hb'']
        exact hb''
      · intro h
        rw [← hagree a b' b hb' h]
        exact hb'
    · rw [← undefined] at hS hR
      exact iff_of_false (fun h => hR ⟨bs, h⟩) fun h => hS ⟨bs, h⟩

end Forall₂

/-- The texts between the commas behind `bytes=`. -/
def rangeTexts (header : Bytes) : List Bytes := (header.drop expectedPrefix.length).splitOn 44

theorem parseRangeTexts_eq_some_iff {texts : List Bytes} {before : List Range} :
    parseRangeTexts texts before = .ok (some ranges) ↔
      ∃ more, before ++ more = ranges ∧ ranges ≠ [] ∧ List.Forall₂ LooseSpec texts more := by
  induction texts generalizing before with
  | nil =>
      rw [parseRangeTexts]
      split_ifs with hempty
      · constructor
        · intro h
          cases h
        · rintro ⟨more, rfl, hne, hnil⟩
          cases hnil
          simp [hempty] at hne
      · constructor
        · intro h
          injection h with h
          injection h with h
          exact ⟨[], by rw [h, List.append_nil], h ▸ hempty, .nil⟩
        · rintro ⟨more, rfl, -, hnil⟩
          cases hnil
          rw [List.append_nil]
          rfl
  | cons text texts ih =>
      rw [parseRangeTexts]
      constructor
      · intro h
        obtain ⟨range, hparse, hrest⟩ := ok_of_bind_eq_ok h
        cases range with
        | none => cases hrest
        | some range =>
            obtain ⟨more, hranges, hne, hmore⟩ := ih.mp hrest
            rw [List.append_assoc, List.singleton_append] at hranges
            exact ⟨range :: more, hranges, hne, .cons (parseRange_eq_some_iff.mp hparse) hmore⟩
      · rintro ⟨all, rfl, hne, hall⟩
        obtain ⟨range, more, hspec, hmore, rfl⟩ := List.forall₂_cons_left_iff.mp hall
        rw [parseRange_eq_some_iff.mpr hspec]
        refine ih.mpr ⟨more, ?_, hne, hmore⟩
        rw [List.append_assoc, List.singleton_append]

theorem parseRanges_eq_some_iff {rest : Bytes} (hrest : rest ≠ []) :
    parseRanges (expectedPrefix ++ rest) = .ok (some ranges) ↔
      List.Forall₂ LooseSpec (rest.splitOn 44) ranges := by
  rw [parseRanges, if_pos (List.isPrefixOf_iff_prefix.mpr (List.prefix_append _ _)), List.drop_left,
    split_eq_splitOn hrest, parseRangeTexts_eq_some_iff]
  constructor
  · rintro ⟨more, rfl, -, h⟩
    exact h
  · intro h
    refine ⟨ranges, rfl, ?_, h⟩
    rintro rfl
    exact List.splitOn_ne_nil 44 rest (List.forall₂_nil_right_iff.mp h)

theorem parseRanges_expectedPrefix : parseRanges expectedPrefix = .ok none := by decide +kernel

theorem byteRangeSet_iff {rest : Bytes} :
    ByteRangeSet (expectedPrefix ++ rest) ranges ↔
      List.Forall₂ LongSpec (rest.splitOn 44) ranges := by
  constructor
  · rintro ⟨texts, hheader, hne, h⟩
    have hcommas : ∀ text ∈ texts, 44 ∉ text := by
      intro text htext
      obtain ⟨range, hspec⟩ := exists_forall₂_iff.mp ⟨ranges, h⟩ text htext
      exact hspec.not_mem_comma
    rw [List.append_cancel_left hheader, List.splitOn_intercalate 44 hcommas hne]
    exact h
  · intro h
    exact ⟨rest.splitOn 44, by rw [List.intercalate_splitOn], List.splitOn_ne_nil 44 rest, h⟩

/-- **Byte-range sets.** `parseRanges` accepts the byte-range sets and nothing else, with the ranges they
stand for, exactly if there is nothing behind `bytes=`, or all texts between the commas are range specs
with numbers that fit in an `int`, or one of them is no range spec and one of them is not converted. -/
theorem parsesExactly_iff (header : Bytes) :
    ParsesExactly header ↔
      ¬ expectedPrefix <+: header ∨ header = expectedPrefix ∨
      (∀ text ∈ rangeTexts header, ∃ range, IntSpec text range) ∨
      (∃ text ∈ rangeTexts header, ∀ range, ¬ LongSpec text range) ∧
        ∃ text ∈ rangeTexts header, ∀ range, ¬ LooseSpec text range := by
  by_cases hbegins : expectedPrefix <+: header
  · obtain ⟨rest, rfl⟩ := hbegins
    by_cases hrest : rest = []
    · subst hrest
      refine iff_of_true (fun ranges => ?_) (Or.inr (Or.inl (List.append_nil _)))
      rw [byteRangeSet_iff, List.splitOn_nil]
      refine iff_of_false (fun h => ?_) fun h => ?_
      · rw [List.append_nil, parseRanges_expectedPrefix] at h
        cases h
      · obtain ⟨range, more, hspec, -, -⟩ := List.forall₂_cons_left_iff.mp h
        exact hspec.ne_nil rfl
    · have hheader : expectedPrefix ++ rest ≠ expectedPrefix := by simpa using hrest
      have hagree : ∀ text range range', LooseSpec text range → LongSpec text range' →
          range = range' := by
        intro text range range' hloose hlong
        exact (hlong.intSpec (parseRange_eq_some_iff.mpr hloose)).2
      have hboth : (∀ text ∈ rest.splitOn 44, ∃ range, LooseSpec text range ∧ LongSpec text range) ↔
          ∀ text ∈ rest.splitOn 44, ∃ range, IntSpec text range := by
        refine forall₂_congr fun text _ => exists_congr fun range => ?_
        constructor
        · rintro ⟨hloose, hlong⟩
          exact (hlong.intSpec (parseRange_eq_some_iff.mpr hloose)).1
        · intro h
          exact ⟨parseRange_eq_some_iff.mp (parseRange_of_intSpec h), longSpec_of_intSpec h⟩
      rw [ParsesExactly, rangeTexts, List.drop_left]
      simp only [parseRanges_eq_some_iff hrest, byteRangeSet_iff]
      rw [forall_forall₂_iff hagree, hboth]
      simp [hheader]
  · refine iff_of_true (fun ranges => ?_) (Or.inl hbegins)
    rw [parseRanges, if_neg (by rwa [List.isPrefixOf_iff_prefix])]
    refine iff_of_false (fun h => by cases h) ?_
    rintro ⟨texts, rfl, -⟩
    exact hbegins (List.prefix_append _ _)

/-- An offset behind the first two gigabytes makes `std::stoi` throw. -/
theorem not_parsesExactly_of_large : ¬ ParsesExactly (ascii "bytes=3000000000-") := by
  intro h
  have hnumeral : Numeral (2 ^ 63) (ascii "3000000000") := by
    exact ⟨⟨by decide +kernel, by decide +kernel⟩, by decide +kernel⟩
  have hset : ByteRangeSet (ascii "bytes=3000000000-") [⟨3000000000, longMax⟩] :=
    ⟨[ascii "3000000000-"], by decide +kernel, List.cons_ne_nil _ _, .cons (.open hnumeral) .nil⟩
  have hthrows : parseRanges (ascii "bytes=3000000000-") = .error .outOfRange := by decide +kernel
  rw [(h _).mpr hset] at hthrows
  cases hthrows

end Seasocks
