import Mathlib.Data.List.Sort

/-!
# Ordered sets

The elements of a `std::set`, in the order an iterator visits them.
-/

structure OrderedSet (α : Type*) [LT α] where
  elements : List α
  ordered : elements.Pairwise (· < ·)

namespace OrderedSet

variable {α : Type*} [LinearOrder α] {a b : α} {s : OrderedSet α}

instance : Membership α (OrderedSet α) := ⟨fun s a => a ∈ s.elements⟩

instance : Decidable (a ∈ s) := inferInstanceAs (Decidable (a ∈ s.elements))

theorem mem_def : a ∈ s ↔ a ∈ s.elements := Iff.rfl

def empty : OrderedSet α := ⟨[], List.Pairwise.nil⟩

theorem notMem_empty (a : α) : a ∉ (empty : OrderedSet α) := List.not_mem_nil

theorem nodup (s : OrderedSet α) : s.elements.Nodup := s.ordered.imp fun hlt => hlt.ne

theorem ordered_orderedInsert {elements : List α} (h : elements.Pairwise (· < ·)) (hnew : a ∉ elements) :
    (elements.orderedInsert (· ≤ ·) a).Pairwise (· < ·) := by
  induction elements with
  | nil => exact List.pairwise_singleton _ _
  | cons first elements ih =>
      rw [List.pairwise_cons] at h
      rw [List.mem_cons, not_or] at hnew
      rw [List.orderedInsert_cons]
      split_ifs with hle
      · have hlt : a < first := lt_of_le_of_ne hle hnew.1
        rw [List.pairwise_cons, List.pairwise_cons, List.forall_mem_cons]
        exact ⟨⟨hlt, fun other hother => hlt.trans (h.1 other hother)⟩, h⟩
      · rw [List.pairwise_cons]
        refine ⟨fun other hother => ?_, ih h.2 hnew.2⟩
        rcases (List.mem_orderedInsert _).mp hother with rfl | hother
        · exact not_le.mp hle
        · exact h.1 other hother

def insert (a : α) (s : OrderedSet α) : OrderedSet α :=
  if h : a ∈ s.elements then s
  else ⟨s.elements.orderedInsert (· ≤ ·) a, ordered_orderedInsert s.ordered h⟩

theorem mem_insert : b ∈ s.insert a ↔ b = a ∨ b ∈ s := by
  rw [insert]
  split_ifs with hmem
  · exact (or_iff_right_of_imp fun hsame => hsame ▸ hmem).symm
  · exact List.mem_orderedInsert _

theorem mem_insert_self (a : α) (s : OrderedSet α) : a ∈ s.insert a := mem_insert.mpr (Or.inl rfl)

theorem mem_insert_of_mem (h : b ∈ s) : b ∈ s.insert a := mem_insert.mpr (Or.inr h)

def erase (a : α) (s : OrderedSet α) : OrderedSet α :=
  ⟨s.elements.erase a, s.ordered.sublist List.erase_sublist⟩

theorem mem_erase : b ∈ s.erase a ↔ b ≠ a ∧ b ∈ s := s.nodup.mem_erase_iff

theorem notMem_erase (a : α) (s : OrderedSet α) : a ∉ s.erase a := fun h => (mem_erase.mp h).1 rfl

end OrderedSet
