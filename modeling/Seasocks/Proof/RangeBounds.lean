import Mathlib.Algebra.Order.BigOperators.Group.List
import Mathlib.Algebra.Order.Group.Int
import Seasocks.Proof.Emission
import Seasocks.Proof.Ranges

/-!
# The ranges that are sent

Which of the ranges a client can ask for lie within the file once they are clamped, whether their sum is
the length that is advertised, and what the copying loop asks `::read` for.
-/

namespace Seasocks

open Program Relation

variable {w : World} {path content : Bytes} {fileSize : Int} {ranges : List Range}

/-! ### Ranges of a file -/

/-- The first byte a range asks for: one counted from the end, or the last one of the file if it lies
behind that. -/
def Range.first (fileSize : Int) (range : Range) : Int :=
  min (if range.start < 0 then range.start + fileSize else range.start) (fileSize - 1)

/-- The last byte a range asks for. -/
def Range.last (fileSize : Int) (range : Range) : Int := min range.end (fileSize - 1)

/-- A suffix is not longer than the file, and a range does not end before it begins. -/
def Range.Satisfiable (fileSize : Int) (range : Range) : Prop :=
  -fileSize ≤ range.start ∧ range.first fileSize ≤ range.end

def Range.Within (fileSize : Int) (range : Range) : Prop :=
  0 ≤ range.start ∧ range.start ≤ range.end ∧ range.end < fileSize

theorem clampRange_eq (fileSize : Int) (range : Range) :
    clampRange fileSize range = ⟨range.first fileSize, range.last fileSize⟩ := by
  rw [clampRange, Range.first, Range.last]
  congr 1
  · split_ifs <;> omega
  · split_ifs <;> omega

theorem clampRange_length (fileSize : Int) (range : Range) :
    (clampRange fileSize range).length = range.last fileSize - range.first fileSize + 1 := by
  rw [clampRange_eq, Range.length]

/-- Whether a range lies within the file can be seen before it is clamped. -/
theorem clampRange_within_iff (hsize : 0 < fileSize) (range : Range) :
    (clampRange fileSize range).Within fileSize ↔ range.Satisfiable fileSize := by
  rw [clampRange_eq, Range.Within, Range.Satisfiable, Range.first, Range.last]
  dsimp only
  split_ifs with hsuffix
  · omega
  · omega

theorem Range.Within.length_pos {range : Range} (h : range.Within fileSize) : 0 < range.length := by
  have := h.2.1
  rw [Range.length]
  omega

theorem sum_length_nonneg (h : ∀ range ∈ ranges, range.Within fileSize) :
    0 ≤ (ranges.map Range.length).sum := by
  refine List.sum_nonneg fun length hlength => ?_
  obtain ⟨range, hrange, rfl⟩ := List.mem_map.mp hlength
  exact (h range hrange).length_pos.le

/-- The sum that is advertised wraps around when it does not fit in 64 bits. -/
theorem contentLength_eq_iff (h : 0 ≤ (ranges.map Range.length).sum) :
    (contentLength ranges : Int) = (ranges.map Range.length).sum ↔
      (ranges.map Range.length).sum < 2 ^ 64 := by
  rw [contentLength]
  omega

/-- There are ranges in what `parseRanges` accepts. -/
theorem parseRanges_ne_nil {header : Bytes} (h : parseRanges header = .ok (some ranges)) :
    ranges ≠ [] := by
  have texts : ∀ rangesText before, parseRangeTexts rangesText before = .ok (some ranges) →
      ranges ≠ [] := by
    intro rangesText
    induction rangesText with
    | nil =>
        intro before hparse hempty
        rw [parseRangeTexts] at hparse
        split_ifs at hparse with hbefore
        · cases hparse
        · injection hparse with hparse
          injection hparse with hparse
          exact hbefore (hparse.trans hempty)
    | cons rangeText rangesText ih =>
        intro before hparse
        rw [parseRangeTexts] at hparse
        obtain ⟨range, -, hrest⟩ := ok_of_bind_eq_ok hparse
        cases range with
        | none => cases hrest
        | some range => exact ih _ hrest
  rw [parseRanges] at h
  split_ifs at h with hbegins
  · exact texts _ _ h
  · cases h

/-! ### The copying loop -/

/-- Where the loop of `sendStaticData` is: the position in the file, `bytesLeft`, and the output side. -/
structure CopyState where
  offset : Nat
  bytesLeft : Int
  out : Output

namespace Output

/-- A turn of the loop that goes on. -/
inductive CopyTurn (w : World) (path content : Bytes) : CopyState → CopyState → Prop where
  | copied {offset bytesRead : Nat} {bytesLeft : Int} {o o' : Output} {buf : Bytes}
      (hleft : bytesLeft ≠ 0)
      (hread : w.readFile o.log path offset (readAmount bytesLeft) = some bytesRead)
      (hbuf : buf = (content.drop offset).take (min bytesRead (readAmount bytesLeft)))
      (hmore : buf ≠ []) (hfits : buf.length ≤ readWriteBufferSize)
      (hwrite : (write w buf true).run o = (true, o')) :
      CopyTurn w path content ⟨offset, bytesLeft, o⟩
        ⟨offset + buf.length, bytesLeft - buf.length, o'⟩

/-- The states the loop comes to. -/
abbrev CopyTurns (w : World) (path content : Bytes) : CopyState → CopyState → Prop :=
  ReflTransGen (CopyTurn w path content)

theorem copyRange_of_left {bytesLeft : Int} (hleft : bytesLeft ≠ 0) (w : World) (path content : Bytes)
    (fuel offset : Nat) (o : Output) :
    (copyRange w path content (fuel + 1) offset bytesLeft).run o =
      (do
        match w.readFile o.log path offset (readAmount bytesLeft) with
        | none => return .ok false
        | some bytesRead =>
            let buf := (content.drop offset).take (min bytesRead (readAmount bytesLeft))
            if buf = [] then
              return .ok false
            else if readWriteBufferSize < buf.length then
              return .error .outOfRange
            else if ← write w buf true then
              copyRange w path content fuel (offset + buf.length) (bytesLeft - buf.length)
            else
              return .ok false : OutM (Except Fault Bool)).run o := by
  rw [copyRange, if_neg hleft]
  rfl

/-- The loop goes on with a turn, or ends where it is. -/
theorem copyRange_cases (w : World) (path content : Bytes) (s : CopyState) :
    (∃ s', CopyTurn w path content s s' ∧ ∀ fuel,
      (copyRange w path content (fuel + 1) s.offset s.bytesLeft).run s.out =
        (copyRange w path content fuel s'.offset s'.bytesLeft).run s'.out) ∨
    ∃ result o', ∀ fuel,
      (copyRange w path content (fuel + 1) s.offset s.bytesLeft).run s.out = (result, o') := by
  obtain ⟨offset, bytesLeft, o⟩ := s
  by_cases hleft : bytesLeft = 0
  · refine Or.inr ⟨.ok true, o, fun fuel => ?_⟩
    rw [copyRange, if_pos hleft]
    rfl
  · have start := fun fuel => copyRange_of_left hleft w path content fuel offset o
    dsimp only at start ⊢
    cases hread : w.readFile o.log path offset (readAmount bytesLeft) with
    | none =>
        refine Or.inr ⟨.ok false, o, fun fuel => ?_⟩
        rw [start, hread]
        rfl
    | some bytesRead =>
        simp only [hread] at start
        by_cases hmore : (content.drop offset).take (min bytesRead (readAmount bytesLeft)) = []
        · refine Or.inr ⟨.ok false, o, fun fuel => ?_⟩
          rw [start, if_pos hmore]
          rfl
        · simp only [if_neg hmore] at start
          by_cases hfits : readWriteBufferSize <
              ((content.drop offset).take (min bytesRead (readAmount bytesLeft))).length
          · refine Or.inr ⟨.error .outOfRange, o, fun fuel => ?_⟩
            rw [start, if_pos hfits]
            rfl
          · simp only [if_neg hfits] at start
            rcases hwrite : (write w ((content.drop offset).take
              (min bytesRead (readAmount bytesLeft))) true).run o with ⟨written, o'⟩
            cases written with
            | true =>
                refine Or.inl ⟨_, CopyTurn.copied hleft hread rfl hmore (by omega) hwrite, fun fuel => ?_⟩
                rw [start, StateT.run_bind, hwrite]
                rfl
            | false =>
                refine Or.inr ⟨.ok false, o', fun fuel => ?_⟩
                rw [start, StateT.run_bind, hwrite]
                rfl

theorem readAmount_of_nonneg {bytesLeft : Int} (h : 0 ≤ bytesLeft) :
    (readAmount bytesLeft : Int) = min (readWriteBufferSize : Int) bytesLeft := by
  rw [readAmount, readWriteBufferSize]
  omega

/-- What is left is never negative, because no more is read than is left. -/
theorem CopyTurn.bytesLeft_nonneg {s s' : CopyState} (h : CopyTurn w path content s s')
    (hs : 0 ≤ s.bytesLeft) : 0 ≤ s'.bytesLeft := by
  cases h with
  | @copied offset bytesRead bytesLeft o o' buf hleft hread hbuf hmore hfits hwrite =>
      dsimp only at hs ⊢
      have hamount := readAmount_of_nonneg hs
      have hlength : buf.length ≤ readAmount bytesLeft := by
        rw [hbuf, List.length_take]
        exact (Nat.min_le_left _ _).trans (Nat.min_le_right _ _)
      omega

theorem CopyTurns.bytesLeft_nonneg {s s' : CopyState} (h : CopyTurns w path content s s')
    (hs : 0 ≤ s.bytesLeft) : 0 ≤ s'.bytesLeft :=
  invariant_of_steps (fun s => 0 ≤ s.bytesLeft) (fun _ _ hs hturn => hturn.bytesLeft_nonneg hs) h hs

/-- Sending this range, `bytesLeft` never gets negative and every `::read` asks for some bytes, but for no
more than the buffer holds. -/
def ReadsWithin (w : World) (range : Range) : Prop :=
  ∀ path content o s, CopyTurns w path content ⟨range.start.toNat, range.length, o⟩ s →
    0 ≤ s.bytesLeft ∧
      (s.bytesLeft ≠ 0 → 1 ≤ readAmount s.bytesLeft ∧ readAmount s.bytesLeft ≤ readWriteBufferSize)

theorem readsWithin_of_nonneg {range : Range} (h : 0 ≤ range.length) : ReadsWithin w range := by
  intro path content o s hturns
  have hleft := hturns.bytesLeft_nonneg h
  have hamount := readAmount_of_nonneg hleft
  refine ⟨hleft, fun hmore => ?_⟩
  rw [readWriteBufferSize] at hamount ⊢
  omega

/-! ### What is sent for a list of ranges -/

/-- The header lines a partial response begins with. -/
def partialHead (w : World) (ranges : List Range) (fileSize : Int) (date : Bytes) : Bytes :=
  commonHead w .partialContent date ++ (rangeLine ranges fileSize ++ crlf)
    ++ (ascii "Content-Length: " ++ decimal (contentLength ranges) ++ crlf)

theorem processRangesForStaticData_emits (hranges : ranges ≠ []) (fileSize : Int) (o : Output) :
    After (processRangesForStaticData w ranges fileSize) o fun sent o' =>
      sent = ranges.map (clampRange fileSize) ∧
        ∃ date, Emits (partialHead w sent fileSize date) o o' := by
  rw [processRangesForStaticData, if_neg hranges]
  refine (bufferResponseAndCommonHeaders_emits .partialContent).bind fun _ o₁ ⟨log, h₁⟩ => ?_
  refine (bufferLine_emits _).bind fun _ o₂ h₂ => (bufferLine_emits _).bind fun _ o₃ h₃ => ?_
  exact ⟨rfl, w.now log, (h₁.trans h₂).trans h₃⟩

/-- The ranges `processRangesForStaticData` returns lie within the file, their lengths add up to the
length it advertises, and each is copied in reads that fit the buffer. -/
structure Sound (w : World) (fileSize : Int) (sent : List Range) : Prop where
  within : ∀ range ∈ sent, range.Within fileSize
  total : (contentLength sent : Int) = (sent.map Range.length).sum
  reads : ∀ range ∈ sent, ReadsWithin w range

theorem sound_iff (hsize : 0 < fileSize) :
    Sound w fileSize (ranges.map (clampRange fileSize)) ↔
      (∀ range ∈ ranges, range.Satisfiable fileSize) ∧
        (ranges.map fun range => range.last fileSize - range.first fileSize + 1).sum < 2 ^ 64 := by
  have hwithin : (∀ range ∈ ranges.map (clampRange fileSize), range.Within fileSize) ↔
      ∀ range ∈ ranges, range.Satisfiable fileSize := by
    rw [List.forall_mem_map]
    exact forall₂_congr fun range _ => clampRange_within_iff hsize range
  have hlengths : (ranges.map (clampRange fileSize)).map Range.length =
      ranges.map fun range => range.last fileSize - range.first fileSize + 1 := by
    rw [List.map_map]
    exact List.map_congr_left fun range _ => clampRange_length fileSize range
  constructor
  · rintro ⟨hin, htotal, -⟩
    refine ⟨hwithin.mp hin, ?_⟩
    rw [← hlengths]
    exact (contentLength_eq_iff (sum_length_nonneg hin)).mp htotal
  · rintro ⟨hsatisfiable, hsum⟩
    have hin := hwithin.mpr hsatisfiable
    rw [← hlengths] at hsum
    exact ⟨hin, (contentLength_eq_iff (sum_length_nonneg hin)).mpr hsum,
      fun range hrange => readsWithin_of_nonneg (Int.le_of_lt (hin range hrange).length_pos)⟩

/-- **Ranges of a file.** The ranges that are sent lie within the file, add up to the length that is
advertised and are copied in reads that fit the buffer, exactly if no suffix is longer than the file, no
range ends before it begins, and the sum of the lengths fits in a `size_t`. -/
theorem processRangesForStaticData_sound_iff (w : World) {header : Bytes} {ranges : List Range}
    (hparse : parseRanges header = .ok (some ranges)) {fileSize : Int} (hsize : 0 < fileSize)
    (o : Output) :
    After (processRangesForStaticData w ranges fileSize) o (fun sent o' =>
        (∃ date, Emits (partialHead w sent fileSize date) o o') ∧ Sound w fileSize sent) ↔
      (∀ range ∈ ranges, range.Satisfiable fileSize) ∧
        (ranges.map fun range => range.last fileSize - range.first fileSize + 1).sum < 2 ^ 64 := by
  have hemits := processRangesForStaticData_emits (w := w) (parseRanges_ne_nil hparse) fileSize o
  rw [← sound_iff (w := w) hsize]
  constructor
  · intro h
    have hboth := (hemits.and h).run
    rw [← hboth.1.1]
    exact hboth.2.2
  · intro h
    refine hemits.mono fun sent o' hsent => ⟨hsent.2, ?_⟩
    rw [hsent.1]
    exact h

/-- Two ranges of a small file. -/
theorem processRangesForStaticData_sound_iff_two :
    After (processRangesForStaticData World.plain [⟨0, 3⟩, ⟨-2, longMax⟩] 10) fresh
      fun sent o' => (∃ date, Emits (partialHead World.plain sent 10 date) fresh o') ∧
        Sound World.plain 10 sent := by
  have hparse : parseRanges (ascii "bytes=0-3,-2") = .ok (some [⟨0, 3⟩, ⟨-2, longMax⟩]) := by
    decide +kernel
  refine (processRangesForStaticData_sound_iff World.plain hparse (by decide) fresh).mpr ⟨?_, ?_⟩
  · intro range hrange
    simp only [List.mem_cons, List.not_mem_nil, or_false] at hrange
    rcases hrange with rfl | rfl
    · exact ⟨by decide, by decide⟩
    · exact ⟨by decide, by decide⟩
  · decide

/-- A range that ends before it begins. -/
theorem not_sound_of_inverted :
    parseRanges (ascii "bytes=5-3") = .ok (some [⟨5, 3⟩]) ∧
    ¬ After (processRangesForStaticData World.plain [⟨5, 3⟩] 10) fresh
      fun sent _ => Sound World.plain 10 sent := by
  refine ⟨by decide +kernel, fun h => ?_⟩
  have hwithin := h.run.within ⟨5, 3⟩ (by decide +kernel)
  exact absurd hwithin.2.1 (by decide)

end Output

end Seasocks
