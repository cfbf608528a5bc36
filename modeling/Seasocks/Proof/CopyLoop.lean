import Seasocks.Proof.Answers

/-!
# The copying loop of `sendStaticData`

What is passed to `write`, block by block, is the part of the file that was asked for.
-/

namespace Seasocks

namespace Output

open Program

variable {w : World} {path content : Bytes}

/-! ### The loop with its writes -/

/-- Why the copying stops. -/
inductive CopyEnd where
  | copied
  | seekFailed
  | readFailed
  | endOfFile
  | refused
  | overrun
  | outOfFuel
deriving DecidableEq, Repr

/-- What the loop returns then. -/
def CopyEnd.result : CopyEnd → Except Fault Bool
  | .copied => .ok true
  | .overrun => .error .outOfRange
  | .seekFailed | .readFailed | .endOfFile | .refused | .outOfFuel => .ok false

/-- A read or a write that did not work. -/
def CopyEnd.Failed (stop : CopyEnd) : Prop :=
  stop = .seekFailed ∨ stop = .readFailed ∨ stop = .endOfFile ∨ stop = .refused

/-- `copyRange`, with the reason why it stops and all that it has passed to `write`. -/
def tracedCopyRange (w : World) (path content : Bytes) : Nat → Nat → Int → OutM (CopyEnd × Bytes)
  | 0, _, _ => return (.outOfFuel, [])
  | fuel + 1, offset, bytesLeft => do
      if bytesLeft = 0 then
        return (.copied, [])
      else
        let o ← get
        match w.readFile o.log path offset (readAmount bytesLeft) with
        | none => return (.readFailed, [])
        | some bytesRead =>
            let buf := (content.drop offset).take (min bytesRead (readAmount bytesLeft))
            if buf = [] then
              return (.endOfFile, [])
            else if readWriteBufferSize < buf.length then
              return (.overrun, [])
            else if ← write w buf true then
              let (stop, passed) ← tracedCopyRange w path content fuel (offset + buf.length)
                (bytesLeft - buf.length)
              return (stop, buf ++ passed)
            else
              return (.refused, buf)

def tracedCopyRanges (w : World) (path content : Bytes) : List Range → OutM (CopyEnd × Bytes)
  | [] => return (.copied, [])
  | range :: ranges => do
      let o ← get
      if range.start < 0 || !w.seek o.log path then
        return (.seekFailed, [])
      else
        let (stop, passed) ← tracedCopyRange w path content (content.length + 1) range.start.toNat
          range.length
        if stop = .copied then
          let (stop, more) ← tracedCopyRanges w path content ranges
          return (stop, passed ++ more)
        else
          return (stop, passed)

/-- Keeping the writes changes nothing. -/
theorem tracedCopyRange_result (fuel offset : Nat) (bytesLeft : Int) :
    (fun traced => traced.1.result) <$> tracedCopyRange w path content fuel offset bytesLeft =
      copyRange w path content fuel offset bytesLeft := by
  induction fuel generalizing offset bytesLeft with
  | zero => rfl
  | succ fuel ih =>
      rw [tracedCopyRange, copyRange]
      by_cases hdone : bytesLeft = 0
      · rw [if_pos hdone, if_pos hdone, map_pure]
        rfl
      rw [if_neg hdone, if_neg hdone, map_bind]
      apply bind_congr
      intro o
      cases w.readFile o.log path offset (readAmount bytesLeft) with
      | none =>
          dsimp only
          rw [map_pure]
          rfl
      | some bytesRead =>
          dsimp only
          split_ifs
          · rw [map_pure]
            rfl
          · rw [map_pure]
            rfl
          · rw [map_bind]
            apply bind_congr
            intro written
            cases written with
            | false =>
                rw [if_neg (by simp), if_neg (by simp), map_pure]
                rfl
            | true =>
                rw [if_pos rfl, if_pos rfl, ← ih, map_bind, map_eq_pure_bind]
                simp only [map_pure]

theorem tracedCopyRanges_result (ranges : List Range) :
    (fun traced => traced.1.result) <$> tracedCopyRanges w path content ranges =
      copyRanges w path content ranges := by
  induction ranges with
  | nil => rfl
  | cons range ranges ih =>
      rw [tracedCopyRanges, copyRanges, map_bind]
      apply bind_congr
      intro o
      split_ifs
      · rw [map_pure]
        rfl
      · rw [← tracedCopyRange_result, map_bind, map_eq_pure_bind, bind_assoc]
        apply bind_congr
        rintro ⟨stop, passed⟩
        rw [pure_bind]
        dsimp only
        by_cases hcopied : stop = .copied
        · rw [if_pos hcopied, hcopied, map_bind, ← ih, map_eq_pure_bind]
          simp only [map_pure, CopyEnd.result]
        · rw [if_neg hcopied, map_pure]
          cases stop
          all_goals first | rfl | exact absurd rfl hcopied

/-! ### What is copied -/

/-- The part of the file from `start` to `end`. -/
def slice (content : Bytes) (range : Range) : Bytes :=
  (content.drop range.start.toNat).take range.length.toNat

/-- The copying has passed on all of `whole`, or a read or a write has failed and it is a beginning. -/
def CopiesUpTo (whole : Bytes) (traced : CopyEnd × Bytes) : Prop :=
  traced.1 = .copied ∧ traced.2 = whole ∨ traced.1.Failed ∧ traced.2 <+: whole

theorem CopyEnd.Failed.ne_copied {stop : CopyEnd} (h : stop.Failed) : stop ≠ .copied := by
  rcases h with rfl | rfl | rfl | rfl <;> simp

theorem CopyEnd.Failed.result {stop : CopyEnd} (h : stop.Failed) : stop.result = .ok false := by
  rcases h with rfl | rfl | rfl | rfl <;> rfl

theorem CopiesUpTo.append {whole buf : Bytes} {stop : CopyEnd} {passed : Bytes}
    (h : CopiesUpTo whole (stop, passed)) : CopiesUpTo (buf ++ whole) (stop, buf ++ passed) := by
  rcases h with ⟨hcopied, rfl⟩ | ⟨hfailed, hbegins⟩
  · exact Or.inl ⟨hcopied, rfl⟩
  · exact Or.inr ⟨hfailed, (List.prefix_append_right_inj buf).mpr hbegins⟩

/-- A block that is written is not empty, so every turn gets nearer to the end of the file. -/
theorem tracedCopyRange_copies {fuel offset : Nat} {bytesLeft : Int} {o : Output}
    (hleft : 0 ≤ bytesLeft) (hturns : 0 < fuel) (hfuel : content.length < offset + fuel) :
    After (tracedCopyRange w path content fuel offset bytesLeft) o fun traced _ =>
      CopiesUpTo ((content.drop offset).take bytesLeft.toNat) traced := by
  induction fuel generalizing offset bytesLeft o with
  | zero => exact absurd hturns (Nat.lt_irrefl 0)
  | succ fuel ih =>
      rw [tracedCopyRange, after_ite]
      refine ⟨fun hdone => ?_, fun hmore => ?_⟩
      · rw [hdone]
        exact Or.inl ⟨rfl, rfl⟩
      rw [after_bind, after_get]
      cases hread : w.readFile o.log path offset (readAmount bytesLeft) with
      | none => exact Or.inr ⟨Or.inr (Or.inl rfl), List.nil_prefix⟩
      | some bytesRead =>
          generalize hbuf : (content.drop offset).take (min bytesRead (readAmount bytesLeft)) = buf
          dsimp only
          rw [hbuf, after_ite]
          refine ⟨fun hempty => ?_, fun hblock => ?_⟩
          · exact Or.inr ⟨Or.inr (Or.inr (Or.inl rfl)), List.nil_prefix⟩
          have hamount := readAmount_of_nonneg hleft
          have hlength : buf.length ≤ readAmount bytesLeft := by
            rw [← hbuf, List.length_take]
            exact (Nat.min_le_left _ _).trans (Nat.min_le_right _ _)
          have hpositive : 0 < buf.length := List.length_pos_iff.mpr hblock
          have hinside : offset + buf.length ≤ content.length := by
            have hfound : buf.length ≤ (content.drop offset).length := by
              rw [← hbuf, List.length_take]
              exact Nat.min_le_right _ _
            rw [List.length_drop] at hfound
            omega
          have hrest := take_block hbuf (show (buf.length : Int) ≤ bytesLeft by omega)
          rw [after_ite]
          refine ⟨fun hlarge => absurd hlarge (by omega), fun hfits => ?_⟩
          rw [after_bind]
          refine After.of_forall fun written o₁ => ?_
          rw [after_ite]
          refine ⟨fun _ => ?_, fun _ => ?_⟩
          · rw [after_bind]
            refine (ih (by omega) (by omega) (by omega)).mono fun traced o₂ h => ?_
            rw [after_pure, hrest]
            exact h.append
          · rw [hrest]
            exact Or.inr ⟨Or.inr (Or.inr (Or.inr rfl)), List.prefix_append _ _⟩

theorem tracedCopyRanges_copies {ranges : List Range} (hranges : ∀ range ∈ ranges, 0 ≤ range.length)
    (o : Output) :
    After (tracedCopyRanges w path content ranges) o fun traced _ =>
      CopiesUpTo (ranges.flatMap (slice content)) traced := by
  induction ranges generalizing o with
  | nil => exact Or.inl ⟨rfl, rfl⟩
  | cons range ranges ih =>
      rw [List.forall_mem_cons] at hranges
      rw [tracedCopyRanges, after_bind, after_get, after_ite, List.flatMap_cons]
      refine ⟨fun _ => Or.inr ⟨Or.inl rfl, List.nil_prefix⟩, fun _ => ?_⟩
      rw [after_bind]
      refine (tracedCopyRange_copies hranges.1 (Nat.succ_pos _) (by omega)).mono ?_
      rintro ⟨stop, passed⟩ o₁ h
      dsimp only
      rw [after_ite]
      refine ⟨fun hcopied => ?_, fun hstopped => ?_⟩
      · rcases h with ⟨-, rfl⟩ | ⟨hfailed, -⟩
        · rw [after_bind]
          refine (ih hranges.2 o₁).mono fun traced o₂ h => ?_
          rw [after_pure]
          exact h.append
        · exact absurd hcopied hfailed.ne_copied
      · rcases h with ⟨hcopied, -⟩ | ⟨hfailed, hbegins⟩
        · exact absurd hcopied hstopped
        · exact Or.inr ⟨hfailed, hbegins.trans (List.prefix_append _ _)⟩

/-- **The copying loop.** For ranges of a file the loop ends by itself, whatever the reads yield. Either it
returns true and has passed the parts of the file to `write`, in order, or a read or a write has failed, it
returns false and has passed on a beginning of them. -/
theorem copyRanges_copies (w : World) (path content : Bytes) {fileSize : Int} {ranges : List Range}
    (hranges : ∀ range ∈ ranges, range.Within fileSize) (o : Output) :
    (fun traced => traced.1.result) <$> tracedCopyRanges w path content ranges =
        copyRanges w path content ranges ∧
      After (tracedCopyRanges w path content ranges) o fun traced _ =>
        (traced.1.result = .ok true ∧ traced.2 = ranges.flatMap (slice content)) ∨
        (traced.1.Failed ∧ traced.1.result = .ok false ∧
          traced.2 <+: ranges.flatMap (slice content)) := by
  refine ⟨tracedCopyRanges_result ranges, ?_⟩
  have hlengths : ∀ range ∈ ranges, 0 ≤ range.length := fun range hrange =>
    (hranges range hrange).length_pos.le
  refine (tracedCopyRanges_copies hlengths o).mono fun traced _ h => ?_
  rcases h with ⟨hcopied, hwhole⟩ | ⟨hfailed, hbegins⟩
  · rw [hcopied]
    exact Or.inl ⟨rfl, hwhole⟩
  · exact Or.inr ⟨hfailed, hfailed.result, hbegins⟩

/-- Two ranges that overlap, read two bytes at a time. -/
theorem copyRanges_copies_short :
    After (tracedCopyRanges { World.plain with readFile := fun _ _ _ _ => some 2 } []
        (ascii "static") [⟨0, 3⟩, ⟨2, 5⟩]) fresh fun traced _ =>
      (traced.1.result = .ok true ∧ traced.2 = ascii "statatic") ∨
      (traced.1.Failed ∧ traced.1.result = .ok false ∧ traced.2 <+: ascii "statatic") := by
  have hwithin : ∀ range ∈ [(⟨0, 3⟩ : Range), ⟨2, 5⟩], range.Within 6 := by
    simp [Range.Within]
  have hparts : [(⟨0, 3⟩ : Range), ⟨2, 5⟩].flatMap (slice (ascii "static")) = ascii "statatic" := by
    decide +kernel
  have hcopies := (copyRanges_copies { World.plain with readFile := fun _ _ _ _ => some 2 } []
    (ascii "static") hwithin fresh).2
  rw [hparts] at hcopies
  exact hcopies

end Output

end Seasocks
