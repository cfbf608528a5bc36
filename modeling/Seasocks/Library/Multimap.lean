import Mathlib.Data.List.Sort

/-!
# Multimaps

The entries of a `std::multimap`, in the order an iterator visits them: by their keys, and under one key
as they were inserted.
-/

structure Multimap (κ α : Type*) [LE κ] where
  entries : List (κ × α)
  sorted : entries.Pairwise fun a b => a.1 ≤ b.1

namespace Multimap

variable {κ α : Type*} [LE κ]

def empty : Multimap κ α := ⟨[], List.Pairwise.nil⟩

section Insert

variable [LT κ] [DecidableLT κ] [Std.IsLinearOrder κ] [Std.LawfulOrderLT κ]

theorem sorted_orderedInsert {entries : List (κ × α)} (h : entries.Pairwise fun a b => a.1 ≤ b.1)
    (entry : κ × α) :
    (entries.orderedInsert (fun a b => a.1 < b.1) entry).Pairwise fun a b => a.1 ≤ b.1 := by
  induction entries with
  | nil => exact List.pairwise_singleton _ _
  | cons first entries ih =>
      rw [List.pairwise_cons] at h
      rw [List.orderedInsert_cons]
      split_ifs with hlt
      · have hle : entry.1 ≤ first.1 := Std.le_of_lt hlt
        rw [List.pairwise_cons, List.pairwise_cons, List.forall_mem_cons]
        exact ⟨⟨hle, fun other hother => Std.le_trans hle (h.1 other hother)⟩, h⟩
      · rw [List.pairwise_cons]
        refine ⟨fun other hother => ?_, ih h.2⟩
        rcases (List.mem_orderedInsert _).mp hother with rfl | hother
        · exact Std.not_lt.mp hlt
        · exact h.1 other hother

/-- `insert`: behind the entries whose key is no greater. -/
def insert (m : Multimap κ α) (entry : κ × α) : Multimap κ α :=
  ⟨m.entries.orderedInsert (fun a b => a.1 < b.1) entry, sorted_orderedInsert m.sorted entry⟩

theorem insert_perm (m : Multimap κ α) (entry : κ × α) :
    (m.insert entry).entries.Perm (entry :: m.entries) :=
  List.perm_orderedInsert _ _ _

theorem mem_insert {m : Multimap κ α} {entry other : κ × α} :
    other ∈ (m.insert entry).entries ↔ other = entry ∨ other ∈ m.entries :=
  List.mem_orderedInsert _

end Insert

section Find

variable [DecidableEq κ]

/-- `erase`: all entries under a key. -/
def erase (m : Multimap κ α) (key : κ) : Multimap κ α :=
  ⟨m.entries.filter fun entry => entry.1 ≠ key, m.sorted.sublist List.filter_sublist⟩

theorem mem_erase {m : Multimap κ α} {key : κ} {entry : κ × α} :
    entry ∈ (m.erase key).entries ↔ entry ∈ m.entries ∧ entry.1 ≠ key := by
  rw [erase, List.mem_filter, decide_eq_true_iff]

/-- Whether `find` finds the key. -/
def contains (m : Multimap κ α) (key : κ) : Bool := (m.entries.find? fun entry => entry.1 = key).isSome

theorem contains_iff {m : Multimap κ α} {key : κ} :
    m.contains key = true ↔ ∃ value, (key, value) ∈ m.entries := by
  rw [contains, List.find?_isSome]
  constructor
  · rintro ⟨⟨_, value⟩, hmem, hkey⟩
    obtain rfl := of_decide_eq_true hkey
    exact ⟨value, hmem⟩
  · rintro ⟨value, hmem⟩
    exact ⟨_, hmem, decide_eq_true rfl⟩

end Find

end Multimap
