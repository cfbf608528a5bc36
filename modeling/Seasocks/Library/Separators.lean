import Mathlib.Data.List.Basic
import Mathlib.Data.List.TakeWhile

/-!
# Separators

What the pieces of a sequence between separators are: put together with the separator they are the
sequence, and there is one more of them than there are separators.
-/

namespace Separators

variable {α : Type} [BEq α] {c : α} {s : List α}

/-! ### Splitting -/

theorem length_splitOn (c : α) (s : List α) : (s.splitOn c).length = s.count c + 1 := by
  induction s with
  | nil => rfl
  | cons d s ih =>
      rw [List.splitOn_cons_eq_if_modifyHead, List.count_cons]
      split_ifs with hd
      · rw [List.length_cons, ih]
      · rw [List.length_modifyHead, ih]

variable [LawfulBEq α]

/-- The parts of a sequence between separators `c`. -/
theorem mem_splitOn_iff {part : List α} :
    part ∈ s.splitOn c ↔ c ∉ part ∧ ∃ before after, s = before ++ (part ++ after) ∧
      (∀ b ∈ before.getLast?, b = c) ∧ ∀ b ∈ after.head?, b = c := by
  constructor
  · intro h
    induction hlength : s.length using Nat.strong_induction_on generalizing s with
    | _ length ih =>
        by_cases hmem : c ∈ s
        · obtain ⟨first, more, rfl, hfirst⟩ := List.eq_append_cons_of_mem hmem
          rw [List.splitOn_append_cons_self_of_not_mem hfirst, List.mem_cons] at h
          rcases h with rfl | h
          · exact ⟨hfirst, [], c :: more, rfl, by simp, by simp⟩
          · obtain ⟨hpart, before, after, rfl, hbefore, hafter⟩ := ih more.length (by
              rw [← hlength, List.length_append, List.length_cons]
              omega) h rfl
            refine ⟨hpart, first ++ c :: before, after, by simp, ?_, hafter⟩
            cases before with
            | nil => simp
            | cons b before => simpa using hbefore
        · rw [List.splitOn_eq_singleton hmem, List.mem_singleton] at h
          subst h
          exact ⟨hmem, [], [], by simp, by simp, by simp⟩
  · rintro ⟨hpart, before, after, rfl, hbefore, hafter⟩
    have hfirst : part ∈ (part ++ after).splitOn c := by
      cases after with
      | nil => rw [List.append_nil, List.splitOn_eq_singleton hpart, List.mem_singleton]
      | cons b after =>
          rw [hafter b rfl, List.splitOn_append_cons_self_of_not_mem hpart]
          exact List.mem_cons_self
    rcases List.eq_nil_or_concat before with rfl | ⟨before, b, rfl⟩
    · exact hfirst
    · rw [hbefore b (by simp), List.concat_append, List.splitOn_append_cons_self]
      exact List.mem_append_right _ hfirst

/-- The first piece ends in front of the first separator. -/
theorem exists_splitOn_eq_cons (c : α) (s : List α) :
    ∃ rest, s.splitOn c = s.takeWhile (· != c) :: rest := by
  by_cases hmem : c ∈ s
  · obtain ⟨first, more, rfl, hfirst⟩ := List.eq_append_cons_of_mem hmem
    refine ⟨more.splitOn c, ?_⟩
    have hbefore : ∀ b ∈ first, (b != c) = true := by
      intro b hb
      rw [bne_iff_ne]
      rintro rfl
      exact hfirst hb
    rw [List.splitOn_append_cons_self_of_not_mem hfirst, List.takeWhile_append_of_pos hbefore,
      List.takeWhile_cons_of_neg (by simp), List.append_nil]
  · refine ⟨[], ?_⟩
    have hall : s.takeWhile (· != c) = s := by
      rw [List.takeWhile_eq_self_iff]
      intro b hb
      rw [bne_iff_ne]
      rintro rfl
      exact hmem hb
    rw [List.splitOn_eq_singleton hmem, hall]

/-! ### Pieces -/

/-- Nothing is lost between the pieces, none of them can be split further, and every separator stands
between two of them. -/
structure Pieces (c : α) (s : List α) (pieces : List (List α)) : Prop where
  joined : [c].intercalate pieces = s
  free : ∀ piece ∈ pieces, c ∉ piece
  count : pieces.length = s.count c + 1

theorem pieces_splitOn (c : α) (s : List α) : Pieces c s (s.splitOn c) where
  joined := List.intercalate_splitOn c
  free := fun _ hpiece => (mem_splitOn_iff.mp hpiece).1
  count := length_splitOn c s

namespace Pieces

variable {pieces : List (List α)}

/-- There is one way only to cut a sequence into pieces. -/
theorem eq_splitOn (h : Pieces c s pieces) : pieces = s.splitOn c := by
  have hsome : pieces ≠ [] := by
    rintro rfl
    exact absurd h.count (by simp)
  rw [← h.joined, List.splitOn_intercalate c h.free hsome]

/-- The pieces around a separator are those of what is before it and of what is behind it. -/
theorem eq_append {before after : List α} (h : Pieces c (before ++ c :: after) pieces) :
    pieces = before.splitOn c ++ after.splitOn c := by
  rw [h.eq_splitOn, List.splitOn_append_cons_self]

theorem leading {after : List α} (h : Pieces c (c :: after) pieces) : pieces.head? = some [] := by
  have hpieces : pieces = [].splitOn c ++ after.splitOn c := eq_append h
  rw [hpieces]
  rfl

theorem trailing {before : List α} (h : Pieces c (before ++ [c]) pieces) :
    pieces.getLast? = some [] := by
  rw [eq_append h, List.splitOn_nil, List.getLast?_concat]

/-- The piece between two separators with nothing between them. -/
theorem adjacent {before after : List α} (h : Pieces c (before ++ c :: c :: after) pieces) :
    pieces[before.count c + 1]? = some [] := by
  obtain ⟨rest, hrest⟩ := exists_splitOn_eq_cons c (c :: after)
  rw [eq_append h, hrest, ← length_splitOn, List.getElem?_append_right le_rfl, Nat.sub_self]
  simp

end Pieces

end Separators
