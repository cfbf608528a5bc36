import Mathlib.Data.List.Infix

/-!
# One-pass substitution

Replacing every occurrence of a word in a list, from left to right: where an occurrence begins, the
replacement is put in its place and the pass goes on behind it. What was put in is never looked at.
-/

namespace Substitution

variable {α : Type} [DecidableEq α] (needle replacement : List α)

def substitute : List α → List α
  | [] => []
  | c :: s =>
      if needle <+: c :: s then replacement ++ substitute (s.drop (needle.length - 1))
      else c :: substitute s
termination_by s => s.length
decreasing_by
  all_goals simp only [List.length_drop, List.length_cons]; omega

@[simp]
theorem substitute_nil : substitute needle replacement [] = [] := by
  rw [substitute]

variable {needle}

theorem substitute_cons_of_not_isPrefix {c : α} {s : List α} (h : ¬ needle <+: c :: s) :
    substitute needle replacement (c :: s) = c :: substitute needle replacement s := by
  rw [substitute, if_neg h]

/-- An occurrence at the front is replaced, whatever follows it. -/
theorem substitute_append (hneedle : needle ≠ []) (after : List α) :
    substitute needle replacement (needle ++ after) =
      replacement ++ substitute needle replacement after := by
  obtain ⟨c, more, rfl⟩ := List.exists_cons_of_ne_nil hneedle
  have hbegins : c :: more <+: c :: (more ++ after) := List.prefix_append (c :: more) after
  rw [List.cons_append, substitute, if_pos hbegins, List.length_cons, Nat.add_sub_cancel,
    List.drop_left]

/-- The bytes where no occurrence begins are kept. -/
theorem substitute_skip {before after : List α}
    (h : ∀ i < before.length, ¬ needle <+: (before ++ after).drop i) :
    substitute needle replacement (before ++ after) =
      before ++ substitute needle replacement after := by
  induction before with
  | nil => rfl
  | cons c before ih =>
      have hfirst : ¬ needle <+: c :: (before ++ after) := h 0 (Nat.zero_lt_succ _)
      have hmore : ∀ i < before.length, ¬ needle <+: (before ++ after).drop i := by
        intro i hi
        exact h (i + 1) (Nat.succ_lt_succ hi)
      rw [List.cons_append, substitute_cons_of_not_isPrefix replacement hfirst, ih hmore,
        List.cons_append]

/-- The pass, occurrence by occurrence: the leftmost one is replaced first. -/
theorem substitute_leftmost (hneedle : needle ≠ []) {before after : List α}
    (h : ∀ i < before.length, ¬ needle <+: (before ++ (needle ++ after)).drop i) :
    substitute needle replacement (before ++ (needle ++ after)) =
      before ++ (replacement ++ substitute needle replacement after) := by
  rw [substitute_skip replacement h, substitute_append replacement hneedle]

theorem substitute_of_not_isInfix {s : List α} (h : ¬ needle <:+: s) :
    substitute needle replacement s = s := by
  have hnowhere : ∀ i < s.length, ¬ needle <+: (s ++ []).drop i := by
    intro i _ hbegins
    rw [List.append_nil] at hbegins
    exact h (hbegins.isInfix.trans (List.drop_suffix i s).isInfix)
  calc
    substitute needle replacement s = substitute needle replacement (s ++ []) := by
      rw [List.append_nil]
    _ = s ++ [] := by
      rw [substitute_skip replacement hnowhere, substitute_nil]
    _ = s := List.append_nil s

/-- Replacing a single letter by a single letter is a `map`. -/
theorem substitute_singleton (a b : α) (s : List α) :
    substitute [a] [b] s = s.map fun c => if c = a then b else c := by
  induction s with
  | nil => simp
  | cons c s ih =>
      by_cases hc : c = a
      · calc
          substitute [a] [b] (c :: s) = substitute [a] [b] ([a] ++ s) := by
            rw [hc, List.singleton_append]
          _ = b :: substitute [a] [b] s := substitute_append [b] (List.cons_ne_nil a []) s
          _ = (c :: s).map fun c => if c = a then b else c := by
            rw [ih, List.map_cons, if_pos hc]
      · have hfirst : ¬ [a] <+: c :: s := by
          intro hbegins
          exact hc (List.cons_prefix_cons.mp hbegins).1.symm
        rw [substitute_cons_of_not_isPrefix [b] hfirst, ih, List.map_cons, if_neg hc]

end Substitution
