import Seasocks.Library.Substitution
import Seasocks.Proof.HeaderBlocks

/-!
# What `replace` replaces

`replace` changes the string it searches and goes on behind what it put in. Each turn leaves the part
of the string before `pos` alone, so what is there is the finished part of a one-pass substitution.
-/

namespace Seasocks

open Substitution

variable {needle : Bytes} {replacement : Bytes}

/-- The loop of `replace`, turn by turn until `find` returns `npos`: what is in the string then. There
is a derivation only if the loop ends. -/
inductive ReplaceLoop (needle replacement : Bytes) : Bytes → Nat → Bytes → Prop
  | stop {string : Bytes} {pos : Nat} (hfind : find needle (string.drop pos) = none) :
      ReplaceLoop needle replacement string pos string
  | turn {string result : Bytes} {pos offset : Nat}
      (hfind : find needle (string.drop pos) = some offset)
      (hrest : ReplaceLoop needle replacement
        (string.take (pos + offset) ++ replacement ++ string.drop (pos + offset + needle.length))
        (pos + offset + replacement.length) result) :
      ReplaceLoop needle replacement string pos result

/-- `replace`, by the loop it runs. -/
inductive Replaces (needle replacement string : Bytes) : Bytes → Prop
  | empty (h : needle = []) : Replaces needle replacement string string
  | loop {result : Bytes} (h : needle ≠ [])
      (hloop : ReplaceLoop needle replacement string 0 result) :
      Replaces needle replacement string result

theorem not_isPrefix_of_find {s : Bytes} {i : Nat} (h : find needle s = some i)
    (hi : i ≤ s.length) : ∀ j < i, ¬ needle <+: s.drop j := by
  intro j hj hbegins
  have := find_le_of_isPrefix h hbegins (by omega)
  omega

/-- The first occurrence cuts the string in three. -/
theorem exists_of_find {s : Bytes} {i : Nat} (h : find needle s = some i) (hneedle : needle ≠ []) :
    ∃ before after, s = before ++ (needle ++ after) ∧ before.length = i ∧
      ∀ j < before.length, ¬ needle <+: (before ++ (needle ++ after)).drop j := by
  have hlength := length_of_find h hneedle
  obtain ⟨after, hafter⟩ := List.isPrefixOf_iff_prefix.mp (isPrefixOf_of_find h)
  have hs : s = s.take i ++ (needle ++ after) := by
    rw [hafter, List.take_append_drop]
  have hbefore : (s.take i).length = i := by
    rw [List.length_take]
    omega
  refine ⟨s.take i, after, hs, hbefore, ?_⟩
  rw [hbefore, ← hs]
  exact not_isPrefix_of_find h (by omega)

/-- One turn: the part before `pos` is kept, the rest is one step of the substitution. -/
theorem replace_turn {done before after : Bytes} :
    (done ++ (before ++ (needle ++ after))).take (done.length + before.length) ++ replacement ++
        (done ++ (before ++ (needle ++ after))).drop (done.length + before.length + needle.length) =
      done ++ before ++ replacement ++ after := by
  have hfront : done.length + before.length = (done ++ before).length := List.length_append.symm
  rw [hfront, ← List.append_assoc done, List.take_left, ← List.drop_drop, List.drop_left,
    List.drop_left]

theorem replaceLoop_substitute (replacement : Bytes) (hneedle : needle ≠ []) (done rest : Bytes) :
    ReplaceLoop needle replacement (done ++ rest) done.length
      (done ++ substitute needle replacement rest) := by
  induction h : rest.length using Nat.strong_induction_on generalizing done rest with
  | _ n ih =>
      have hrest : (done ++ rest).drop done.length = rest := List.drop_left
      cases hfind : find needle rest with
      | none =>
          rw [substitute_of_not_isInfix replacement (find_eq_none_iff.mp hfind)]
          apply ReplaceLoop.stop
          rw [hrest, hfind]
      | some offset =>
          obtain ⟨before, after, rfl, rfl, hbefore⟩ := exists_of_find hfind hneedle
          have hshorter : after.length < n := by
            have := List.length_pos_iff.mpr hneedle
            simp only [List.length_append] at h
            omega
          have hnext := ih after.length hshorter (done ++ before ++ replacement) after rfl
          have hfound : find needle ((done ++ (before ++ (needle ++ after))).drop done.length) =
              some before.length := by
            rw [hrest, hfind]
          rw [substitute_leftmost replacement hneedle hbefore]
          apply ReplaceLoop.turn hfound
          rw [replace_turn]
          simpa only [List.append_assoc, List.length_append, Nat.add_assoc] using hnext

/-- A turn takes at least one byte off the part that is still to be searched. -/
theorem replaceFrom_of_loop (hneedle : needle ≠ []) {string result : Bytes} {pos : Nat}
    (h : ReplaceLoop needle replacement string pos result) :
    ∀ fuel, string.length - pos < fuel →
      replaceFrom needle replacement fuel string pos = result := by
  induction h with
  | stop hfind =>
      intro fuel hfuel
      obtain ⟨fuel, rfl⟩ : ∃ n, fuel = n + 1 := Nat.exists_eq_add_one.mpr (by omega)
      rw [replaceFrom, hfind]
  | @turn string result pos offset hfind _ ih =>
      intro fuel hfuel
      obtain ⟨fuel, rfl⟩ : ∃ n, fuel = n + 1 := Nat.exists_eq_add_one.mpr (by omega)
      have hlength := length_of_find hfind hneedle
      have hpos := List.length_pos_iff.mpr hneedle
      rw [List.length_drop] at hlength
      rw [replaceFrom, hfind]
      apply ih
      simp only [List.length_append, List.length_take, List.length_drop]
      omega

theorem replace_eq_substitute (hneedle : needle ≠ []) (string replacement : Bytes) :
    replace string needle replacement = substitute needle replacement string := by
  have hloop := replaceLoop_substitute replacement hneedle [] string
  rw [replace, if_neg hneedle]
  exact replaceFrom_of_loop hneedle hloop _ (Nat.lt_succ_self _)

/-- The reference for `replace`: one pass of substitution, and nothing at all for an empty needle. -/
def replaceAll (string needle replacement : Bytes) : Bytes :=
  if needle = [] then string else substitute needle replacement string

/-- `replace` ends, and what it leaves is the string after one pass of substitution. -/
theorem replace_substitutes (string needle replacement : Bytes) :
    Replaces needle replacement string (replace string needle replacement) ∧
      replace string needle replacement = replaceAll string needle replacement := by
  by_cases hneedle : needle = []
  · rw [replace, replaceAll, if_pos hneedle, if_pos hneedle]
    exact ⟨.empty hneedle, rfl⟩
  · rw [replace_eq_substitute hneedle, replaceAll, if_neg hneedle]
    exact ⟨.loop hneedle (replaceLoop_substitute replacement hneedle [] string), rfl⟩

/-- A replacement that contains the needle is not searched again. -/
example : replaceAll (ascii "a+++") (ascii "++") (ascii "+++") = ascii "a++++" := by
  decide +kernel

end Seasocks
