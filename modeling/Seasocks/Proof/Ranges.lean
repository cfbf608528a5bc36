import Seasocks.StaticData

/-!
# Range headers

The range texts are converted by `std::stoi` outside of any `try`: which `Range` headers make it throw.
-/

namespace Seasocks

/-! ### Computations that throw -/

def Throws {ε α : Type} (x : Except ε α) : Prop := ∃ e, x = .error e

section Throws

variable {ε α β : Type}

@[simp]
theorem throws_ok {a : α} : ¬ Throws (.ok a : Except ε α) := by
  rintro ⟨e, he⟩
  cases he

@[simp]
theorem throws_error {e : ε} : Throws (.error e : Except ε α) := ⟨e, rfl⟩

@[simp]
theorem throws_pure {a : α} : ¬ Throws (pure a : Except ε α) := throws_ok

theorem throws_bind {x : Except ε α} {f : α → Except ε β} :
    Throws (x >>= f) ↔ Throws x ∨ ∃ a, x = .ok a ∧ Throws (f a) := by
  cases x with
  | error e => exact iff_of_true throws_error (Or.inl throws_error)
  | ok a =>
      constructor
      · exact fun h => Or.inr ⟨a, rfl, h⟩
      · rintro (h | ⟨b, hb, h⟩)
        · exact absurd h throws_ok
        · injection hb with hb
          exact hb ▸ h

/-- When the rest throws in the same way whatever the result is, only that counts. -/
theorem throws_bind_of_iff {x : Except ε α} {f : α → Except ε β} {p : Prop}
    (h : ∀ a, Throws (f a) ↔ p) : Throws (x >>= f) ↔ Throws x ∨ p := by
  rw [throws_bind]
  cases x with
  | error e => simp
  | ok a => simp [h]

end Throws

/-! ### Range texts -/

/-- A range text with a number in it that `std::stoi` rejects. -/
def BadRangeText (rangeText : Bytes) : Prop :=
  match rangeText.idxOf? 45 with
  | none => False
  | some minusPos =>
      if minusPos = 0 then Throws (stoi rangeText)
      else Throws (stoi (rangeText.take minusPos)) ∨
        minusPos ≠ rangeText.length - 1 ∧ Throws (stoi (rangeText.drop (minusPos + 1)))

/-- A `Range` header with such a range text, behind range texts that have a `-`. -/
def BadRange (range : Bytes) : Prop :=
  expectedPrefix.isPrefixOf range = true ∧ ∃ before rangeText after,
    split (range.drop expectedPrefix.length) 44 = before ++ rangeText :: after ∧
    (∀ text ∈ before, 45 ∈ text) ∧ BadRangeText rangeText

theorem parseRange_throws_iff (rangeText : Bytes) :
    Throws (parseRange rangeText) ↔ BadRangeText rangeText := by
  unfold parseRange BadRangeText
  cases rangeText.idxOf? 45 with
  | none => exact iff_of_false throws_pure id
  | some minusPos =>
      dsimp only
      split_ifs with hzero hlast
      · rw [throws_bind_of_iff fun _ => iff_false_intro throws_pure, or_false]
      · rw [throws_bind_of_iff fun _ => iff_false_intro throws_pure]
        simp [hlast]
      · rw [throws_bind_of_iff fun _ =>
          throws_bind_of_iff fun _ => iff_false_intro throws_pure]
        simp [hlast]

theorem parseRange_eq_none {rangeText : Bytes} (h : 45 ∉ rangeText) :
    parseRange rangeText = .ok none := by
  rw [parseRange, List.idxOf?_eq_none_iff.mpr h]
  rfl

/-- A text with a `-` that `std::stoi` accepts is a range. -/
theorem parseRange_ne_none {rangeText : Bytes} (h : 45 ∈ rangeText) :
    parseRange rangeText ≠ .ok none := by
  intro hnone
  obtain ⟨minusPos, hpos⟩ := Option.ne_none_iff_exists'.mp
    fun hnot => absurd h (List.idxOf?_eq_none_iff.mp hnot)
  rw [parseRange, hpos] at hnone
  dsimp only at hnone
  split_ifs at hnone
  · obtain ⟨start, -, hnone⟩ := ok_of_bind_eq_ok hnone
    cases hnone
  · obtain ⟨start, -, hnone⟩ := ok_of_bind_eq_ok hnone
    cases hnone
  · obtain ⟨start, -, hnone⟩ := ok_of_bind_eq_ok hnone
    obtain ⟨last, -, hnone⟩ := ok_of_bind_eq_ok hnone
    cases hnone

/-! ### Lists of range texts -/

theorem parseRangeTexts_throws_iff (rangesText : List Bytes) (ranges : List Range) :
    Throws (parseRangeTexts rangesText ranges) ↔ ∃ before rangeText after,
      rangesText = before ++ rangeText :: after ∧ (∀ text ∈ before, 45 ∈ text) ∧
      BadRangeText rangeText := by
  induction rangesText generalizing ranges with
  | nil => exact iff_of_false throws_pure (by simp)
  | cons rangeText rangesText ih =>
      rw [parseRangeTexts, throws_bind, parseRange_throws_iff]
      constructor
      · rintro (hbad | ⟨range, hrange, hthrows⟩)
        · exact ⟨[], rangeText, rangesText, rfl, by simp, hbad⟩
        · cases range with
          | none => exact absurd hthrows throws_pure
          | some range =>
              obtain ⟨before, bad, after, rfl, hbefore, hbad⟩ := (ih _).mp hthrows
              refine ⟨rangeText :: before, bad, after, rfl, ?_, hbad⟩
              refine List.forall_mem_cons.mpr ⟨?_, hbefore⟩
              by_contra hnot
              rw [parseRange_eq_none hnot] at hrange
              cases hrange
      · rintro ⟨before, bad, after, hsplit, hbefore, hbad⟩
        cases before with
        | nil =>
            injection hsplit with hhead
            exact Or.inl (hhead ▸ hbad)
        | cons text before =>
            injection hsplit with hhead htail
            subst hhead
            rw [List.forall_mem_cons] at hbefore
            rcases hparse : parseRange rangeText with e | range
            · exact Or.inl ((parseRange_throws_iff _).mp ⟨e, hparse⟩)
            · cases range with
              | none => exact absurd hparse (parseRange_ne_none hbefore.1)
              | some range =>
                  exact Or.inr ⟨_, rfl, (ih _).mpr ⟨before, bad, after, htail, hbefore.2, hbad⟩⟩

theorem parseRanges_throws_iff (range : Bytes) : Throws (parseRanges range) ↔ BadRange range := by
  rw [parseRanges, BadRange]
  split_ifs with hbegins
  · rw [parseRangeTexts_throws_iff]
    simp [hbegins]
  · exact iff_of_false throws_pure fun h => absurd h.1 hbegins

end Seasocks
