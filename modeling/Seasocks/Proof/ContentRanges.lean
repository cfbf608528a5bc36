import Mathlib.Data.List.Chain
import Seasocks.Proof.Answers
import Seasocks.Proof.RangeBounds

/-!
# `Content-Range` lines

The line of a partial response puts nothing between one range and the next. When the ranges can be read
back from it all the same.
-/

namespace Seasocks

open Program

variable {ranges : List Range} {fileSize : Int}

/-! ### Numerals -/

theorem decimal_length_mono {m n : Nat} (h : m ≤ n) : (decimal m).length ≤ (decimal n).length := by
  have hpos : 0 < (Nat.toDigits 10 n).length := Nat.length_toDigits_pos
  have hn : n < 10 ^ (Nat.toDigits 10 n).length :=
    (Nat.length_toDigits_le_iff (by decide) hpos).mp le_rfl
  rw [decimal, decimal, List.length_map, List.length_map]
  exact (Nat.length_toDigits_le_iff (by decide) hpos).mpr (h.trans_lt hn)

theorem lt_of_decimal_length {m n : Nat} (h : (decimal m).length < (decimal n).length) : m < n := by
  by_contra hnot
  have := decimal_length_mono (Nat.le_of_not_lt hnot)
  omega

/-- Where two numerals that follow each other can be cut: a longer first number makes the second one
smaller. -/
theorem decimal_cut {a b c d : Nat} (h : decimal a ++ decimal b = decimal c ++ decimal d) :
    a = c ∧ b = d ∨ c < a ∧ b < d ∨ a < c ∧ d < b := by
  have hlength := congrArg List.length h
  rw [List.length_append, List.length_append] at hlength
  rcases Nat.lt_trichotomy (decimal a).length (decimal c).length with hlt | heq | hgt
  · refine Or.inr (Or.inr ⟨lt_of_decimal_length hlt, lt_of_decimal_length ?_⟩)
    omega
  · obtain ⟨hfirst, hsecond⟩ := List.append_inj h heq
    exact Or.inl ⟨decimal_injective hfirst, decimal_injective hsecond⟩
  · refine Or.inr (Or.inl ⟨lt_of_decimal_length hgt, lt_of_decimal_length ?_⟩)
    omega

theorem signedDecimal_of_nonneg {i : Int} (h : 0 ≤ i) : signedDecimal i = decimal i.toNat := by
  rw [signedDecimal, if_neg (by omega)]

theorem signedDecimal_inj {i j : Int} (hi : 0 ≤ i) (hj : 0 ≤ j)
    (h : signedDecimal i = signedDecimal j) : i = j := by
  rw [signedDecimal_of_nonneg hi, signedDecimal_of_nonneg hj] at h
  have := decimal_injective h
  omega

theorem signedDecimal_cut {a b c d : Int} (ha : 0 ≤ a) (hb : 0 ≤ b) (hc : 0 ≤ c) (hd : 0 ≤ d)
    (h : signedDecimal a ++ signedDecimal b = signedDecimal c ++ signedDecimal d) :
    a = c ∧ b = d ∨ c < a ∧ b < d ∨ a < c ∧ d < b := by
  rw [signedDecimal_of_nonneg ha, signedDecimal_of_nonneg hb, signedDecimal_of_nonneg hc,
    signedDecimal_of_nonneg hd] at h
  have := decimal_cut h
  omega

theorem not_mem_signedDecimal {i : Int} {c : UInt8} (hi : 0 ≤ i) (hc : isdigit c = false) :
    c ∉ signedDecimal i := by
  rw [signedDecimal_of_nonneg hi]
  intro hmem
  rw [isdigit_of_mem_decimal hmem] at hc
  cases hc

/-- Where the first `c` is decides what is before it and what behind it. -/
theorem append_cons_inj {c : UInt8} {before before' after after' : Bytes} (h : c ∉ before)
    (h' : c ∉ before') :
    before ++ c :: after = before' ++ c :: after' ↔ before = before' ∧ after = after' := by
  constructor
  · intro heq
    have hlength : before.length = before'.length := by
      have hfirst := idxOf?_append_cons h after
      rw [heq, idxOf?_append_cons h' after'] at hfirst
      injection hfirst with hfirst
      exact hfirst.symm
    obtain ⟨hbefore, hafter⟩ := List.append_inj heq hlength
    injection hafter with _ hafter
    exact ⟨hbefore, hafter⟩
  · rintro ⟨rfl, rfl⟩
    rfl

/-! ### The ranges in a line -/

/-- The part of the line that tells the ranges. -/
def rangeDigits (ranges : List Range) : Bytes :=
  ranges.flatMap fun range => signedDecimal range.start ++ ascii "-" ++ signedDecimal range.end

/-- The digits between the dashes of two neighbours can be cut elsewhere, too, so that there is another
range of the file before the cut, and another one behind it. -/
def Range.Recut (fileSize : Int) (range next : Range) : Prop :=
  ∃ x y : Int, x ≠ range.end ∧ range.start ≤ x ∧ x < fileSize ∧ 0 ≤ y ∧ y ≤ next.end ∧
    signedDecimal x ++ signedDecimal y = signedDecimal range.end ++ signedDecimal next.start

/-- No other ranges of any file have the `Content-Range` line that these have. -/
def Recoverable (ranges : List Range) (fileSize : Int) : Prop :=
  ∀ ranges' fileSize', ranges' ≠ [] → (∀ range ∈ ranges', range.Within fileSize') →
    rangeLine ranges' fileSize' = rangeLine ranges fileSize → ranges' = ranges ∧ fileSize' = fileSize

theorem Range.eq_iff {range range' : Range} :
    range = range' ↔ range.start = range'.start ∧ range.end = range'.end := by
  cases range
  cases range'
  rw [Range.mk.injEq]

theorem clampRange_of_within {range : Range} (h : range.Within fileSize) :
    clampRange fileSize range = range := by
  obtain ⟨hstart, hordered, hend⟩ := h
  rw [clampRange, if_neg (by omega), if_neg (by omega), if_neg (by omega)]

theorem rangeDigits_cons (range : Range) (ranges : List Range) :
    rangeDigits (range :: ranges) =
      signedDecimal range.start ++ 45 :: (signedDecimal range.end ++ rangeDigits ranges) := by
  rw [rangeDigits, List.flatMap_cons, List.append_assoc, List.append_assoc]
  rfl

theorem rangeDigits_append (before after : List Range) :
    rangeDigits (before ++ after) = rangeDigits before ++ rangeDigits after :=
  List.flatMap_append

theorem minus_mem_rangeDigits (range : Range) (ranges : List Range) :
    45 ∈ rangeDigits (range :: ranges) := by
  rw [rangeDigits_cons]
  simp

/-- Behind the dash of a range, the line goes on in one way only. The induction is on the ranges; a range
that seems to begin later leaves no room for a cut further to the left. -/
theorem eq_of_rangeDigits {range range' : Range} {ranges' : List Range}
    (hwithin : ∀ r ∈ range :: ranges, r.Within fileSize)
    (hwithin' : ∀ r ∈ range' :: ranges', r.Within fileSize)
    (hchain : (range :: ranges).IsChain fun r next => ¬ r.Recut fileSize next)
    (hstart : range.start ≤ range'.start)
    (h : signedDecimal range'.end ++ rangeDigits ranges' =
      signedDecimal range.end ++ rangeDigits ranges) :
    range'.end = range.end ∧ ranges' = ranges := by
  have hrange := hwithin range List.mem_cons_self
  have hrange' := hwithin' range' List.mem_cons_self
  have hpositive : 0 ≤ range.end := hrange.1.trans hrange.2.1
  have hpositive' : 0 ≤ range'.end := hrange'.1.trans hrange'.2.1
  induction ranges generalizing range range' ranges' with
  | nil =>
      cases ranges' with
      | nil => exact ⟨signedDecimal_inj hpositive' hpositive (by simpa [rangeDigits] using h), rfl⟩
      | cons next' ranges' =>
          have hminus : 45 ∈ signedDecimal range.end ++ rangeDigits [] :=
            h ▸ List.mem_append_right _ (minus_mem_rangeDigits next' ranges')
          simp [rangeDigits, not_mem_signedDecimal (c := 45) hpositive (by decide)] at hminus
  | cons next ranges ih =>
      cases ranges' with
      | nil =>
          have hminus : 45 ∈ signedDecimal range'.end ++ rangeDigits [] :=
            h ▸ List.mem_append_right _ (minus_mem_rangeDigits next ranges)
          simp [rangeDigits, not_mem_signedDecimal (c := 45) hpositive' (by decide)] at hminus
      | cons next' ranges' =>
          have hnext := hwithin next (by simp)
          have hnext' := hwithin' next' (by simp)
          have hdigits : 45 ∉ signedDecimal range.end ++ signedDecimal next.start := by
            simp [not_mem_signedDecimal (c := 45) hpositive (by decide),
              not_mem_signedDecimal (c := 45) hnext.1 (by decide)]
          have hdigits' : 45 ∉ signedDecimal range'.end ++ signedDecimal next'.start := by
            simp [not_mem_signedDecimal (c := 45) hpositive' (by decide),
              not_mem_signedDecimal (c := 45) hnext'.1 (by decide)]
          rw [rangeDigits_cons, rangeDigits_cons, ← List.append_assoc, ← List.append_assoc,
            append_cons_inj hdigits' hdigits] at h
          obtain ⟨hcut, hrest⟩ := h
          obtain ⟨hpair, hchain⟩ := List.isChain_cons_cons.mp hchain
          have hrecur : next.start ≤ next'.start → next'.end = next.end ∧ ranges' = ranges := by
            intro hlater
            exact ih (List.forall_mem_cons.mp hwithin).2 (List.forall_mem_cons.mp hwithin').2 hchain
              hlater hrest hnext hnext' (hnext.1.trans hnext.2.1) (hnext'.1.trans hnext'.2.1)
          rcases signedDecimal_cut hpositive' hnext'.1 hpositive hnext.1 hcut with
            ⟨hend, hsame⟩ | ⟨hlonger, hsmaller⟩ | ⟨hshorter, hlarger⟩
          · obtain ⟨hlast, rfl⟩ := hrecur hsame.ge
            exact ⟨hend, congrArg (· :: ranges') (Range.eq_iff.mpr ⟨hsame, hlast⟩)⟩
          · refine absurd ⟨range'.end, next'.start, hlonger.ne', ?_, hrange'.2.2, hnext'.1, ?_, hcut⟩
              hpair
            · exact hrange.2.1.trans hlonger.le
            · exact hsmaller.le.trans hnext.2.1
          · obtain ⟨hlast, -⟩ := hrecur hlarger.le
            refine absurd ⟨range'.end, next'.start, hshorter.ne, ?_, hrange'.2.2, hnext'.1, ?_, hcut⟩
              hpair
            · exact hstart.trans hrange'.2.1
            · exact hlast ▸ hnext'.2.1

theorem slash_not_mem_rangeDigits (h : ∀ range ∈ ranges, range.Within fileSize) :
    47 ∉ rangeDigits ranges := by
  intro hmem
  obtain ⟨range, hrange, hslash⟩ := List.mem_flatMap.mp hmem
  obtain ⟨hstart, hordered, -⟩ := h range hrange
  rw [List.mem_append, List.mem_append] at hslash
  rcases hslash with (hslash | hslash) | hslash
  · exact not_mem_signedDecimal hstart (by decide) hslash
  · revert hslash
    decide
  · exact not_mem_signedDecimal (hstart.trans hordered) (by decide) hslash

theorem rangeLine_eq (ranges : List Range) (fileSize : Int) :
    rangeLine ranges fileSize =
      ascii "Content-Range: bytes " ++ (rangeDigits ranges ++ 47 :: signedDecimal fileSize) := by
  rw [rangeLine, List.append_assoc, List.append_assoc]
  rfl

theorem Range.Within.size_pos {range : Range} (h : range.Within fileSize) : 0 < fileSize :=
  (h.1.trans h.2.1).trans_lt h.2.2

/-- The line tells the size of the file, and what the ranges have in common with others. -/
theorem rangeLine_inj {ranges' : List Range} {fileSize' : Int} (hne : ranges ≠ []) (hne' : ranges' ≠ [])
    (hwithin : ∀ range ∈ ranges, range.Within fileSize)
    (hwithin' : ∀ range ∈ ranges', range.Within fileSize') :
    rangeLine ranges' fileSize' = rangeLine ranges fileSize ↔
      rangeDigits ranges' = rangeDigits ranges ∧ fileSize' = fileSize := by
  obtain ⟨range, hrange⟩ := List.exists_mem_of_ne_nil ranges hne
  obtain ⟨range', hrange'⟩ := List.exists_mem_of_ne_nil ranges' hne'
  have hsize := (hwithin range hrange).size_pos
  have hsize' := (hwithin' range' hrange').size_pos
  rw [rangeLine_eq, rangeLine_eq, List.append_cancel_left_eq,
    append_cons_inj (slash_not_mem_rangeDigits hwithin') (slash_not_mem_rangeDigits hwithin)]
  constructor
  · rintro ⟨hdigits, hsizes⟩
    exact ⟨hdigits, signedDecimal_inj hsize'.le hsize.le hsizes⟩
  · rintro ⟨hdigits, rfl⟩
    exact ⟨hdigits, rfl⟩

/-- Putting the cut between two neighbours elsewhere changes the ranges, but not the line. -/
theorem not_recoverable_of_recut {range next : Range} {before after : List Range}
    (hwithin : ∀ r ∈ before ++ range :: next :: after, r.Within fileSize)
    (hrecut : range.Recut fileSize next) :
    ¬ Recoverable (before ++ range :: next :: after) fileSize := by
  obtain ⟨x, y, hother, hfirst, hfits, hpositive, hlast, hcut⟩ := hrecut
  intro h
  have hne : ∀ range next : Range, before ++ range :: next :: after ≠ [] := by simp
  have hwithin' : ∀ r ∈ before ++ ⟨range.start, x⟩ :: ⟨y, next.end⟩ :: after, r.Within fileSize := by
    rw [List.forall_mem_append, List.forall_mem_cons, List.forall_mem_cons] at hwithin ⊢
    obtain ⟨hbefore, hrange, hnext, hafter⟩ := hwithin
    exact ⟨hbefore, ⟨hrange.1, hfirst, hfits⟩, ⟨hpositive, hlast, hnext.2.2⟩, hafter⟩
  have hdigits : rangeDigits (before ++ ⟨range.start, x⟩ :: ⟨y, next.end⟩ :: after) =
      rangeDigits (before ++ range :: next :: after) := by
    simp only [rangeDigits_append, rangeDigits_cons]
    rw [← List.append_assoc (signedDecimal x), hcut, List.append_assoc]
  have hline := (rangeLine_inj (hne _ _) (hne _ _) hwithin hwithin').mpr ⟨hdigits, rfl⟩
  have hsame := List.append_cancel_left (h _ _ (hne _ _) hwithin' hline).1
  injection hsame with hrange
  exact hother (Range.eq_iff.mp hrange).2

/-- **Content-Range lines.** The ranges of a file, and its size, can be read back from the line of a
partial response exactly if between no two neighbouring ranges the digits can be cut elsewhere. -/
theorem processRangesForStaticData_recoverable_iff (w : World) (hne : ranges ≠ [])
    (hwithin : ∀ range ∈ ranges, range.Within fileSize) (o : Output) :
    After (Output.processRangesForStaticData w ranges fileSize) o (fun sent o' => sent = ranges ∧
        ∃ date, Output.Emits (Output.partialHead w ranges fileSize date) o o') ∧
      (Recoverable ranges fileSize ↔
        ranges.IsChain fun range next => ¬ range.Recut fileSize next) := by
  constructor
  · have hsent : ranges.map (clampRange fileSize) = ranges := by
      rw [List.map_congr_left fun range hrange => clampRange_of_within (hwithin range hrange)]
      exact List.map_id' ranges
    refine (Output.processRangesForStaticData_emits hne fileSize o).mono ?_
    rintro sent o' ⟨rfl, hemits⟩
    rw [hsent] at hemits ⊢
    exact ⟨rfl, hemits⟩
  constructor
  · intro h
    rw [List.isChain_iff_forall_rel_of_append_cons_cons]
    rintro range next before after rfl hrecut
    exact not_recoverable_of_recut hwithin hrecut h
  · intro hchain ranges' fileSize' hne' hwithin' hline
    obtain ⟨hdigits, rfl⟩ := (rangeLine_inj hne hne' hwithin hwithin').mp hline
    refine ⟨?_, rfl⟩
    obtain ⟨range, ranges, rfl⟩ := List.exists_cons_of_ne_nil hne
    obtain ⟨range', ranges', rfl⟩ := List.exists_cons_of_ne_nil hne'
    have hstart := (hwithin range List.mem_cons_self).1
    have hstart' := (hwithin' range' List.mem_cons_self).1
    rw [rangeDigits_cons, rangeDigits_cons, append_cons_inj
      (not_mem_signedDecimal hstart' (by decide)) (not_mem_signedDecimal hstart (by decide))] at hdigits
    have hfirst := signedDecimal_inj hstart' hstart hdigits.1
    obtain ⟨hlast, rfl⟩ := eq_of_rangeDigits hwithin hwithin' hchain hfirst.ge hdigits.2
    rw [Range.eq_iff.mpr ⟨hfirst, hlast⟩]

/-- Two ranges of a small file: between their dashes, one digit belongs to each. -/
theorem processRangesForStaticData_recoverable_iff_small :
    Recoverable [⟨0, 3⟩, ⟨5, 9⟩] 10 := by
  have hwithin : ∀ range ∈ [(⟨0, 3⟩ : Range), ⟨5, 9⟩], range.Within 10 := by
    simp [Range.Within]
  refine (processRangesForStaticData_recoverable_iff World.plain (by simp) hwithin Output.fresh).2.mpr ?_
  have hcuts : ∀ x < 10, ∀ y < 10, decimal x ++ decimal y = decimal 3 ++ decimal 5 → x = 3 := by
    decide +kernel
  refine List.isChain_pair.mpr ?_
  rintro ⟨x, y, hother, hfirst, hfits, hpositive, hlast, hcut⟩
  dsimp only at hother hfirst hfits hlast hcut
  rw [signedDecimal_of_nonneg hfirst, signedDecimal_of_nonneg hpositive] at hcut
  have := hcuts x.toNat (by omega) y.toNat (by omega) hcut
  omega

/-- Two ways to ask for two ranges of a file of 200 bytes have one line. -/
theorem not_recoverable_of_two : ¬ Recoverable [⟨0, 12⟩, ⟨34, 50⟩] 200 := by
  intro h
  have hwithin : ∀ range ∈ [(⟨0, 123⟩ : Range), ⟨4, 50⟩], range.Within 200 := by
    simp [Range.Within]
  have hline : rangeLine [⟨0, 123⟩, ⟨4, 50⟩] 200 = rangeLine [⟨0, 12⟩, ⟨34, 50⟩] 200 := by
    decide +kernel
  have hsame := (h _ _ (by simp) hwithin hline).1
  simp at hsame

end Seasocks
