import Mathlib.Data.List.Basic
import Mathlib.Data.List.TakeWhile
import Mathlib.Order.BooleanAlgebra.Set

/-!
# Resources that are acquired and released

Histories in which resources are acquired and released, and may be acquired again. A ledger says which
are held; it settles how often a resource has been released since it was acquired.
-/

namespace ResourceLedger

variable {Resource : Type}

inductive Action (Resource : Type) where
  | acquire (resource : Resource)
  | release (resource : Resource)
deriving DecidableEq, Repr

section Releases

variable [DecidableEq Resource]

/-- How often a resource is released before it is acquired again. -/
def releases (resource : Resource) (after : List (Action Resource)) : Nat :=
  (after.takeWhile (· ≠ .acquire resource)).count (.release resource)

theorem releases_append_of_mem {resource : Resource} {after : List (Action Resource)}
    (h : .acquire resource ∈ after) (more : List (Action Resource)) :
    releases resource (after ++ more) = releases resource after := by
  rw [releases, List.takeWhile_append, if_neg, releases]
  intro hlength
  have hall := List.takeWhile_eq_self_iff.mp (List.takeWhile_prefix _ |>.eq_of_length hlength)
  simpa using hall _ h

theorem releases_append_of_not_mem {resource : Resource} {after : List (Action Resource)}
    (h : .acquire resource ∉ after) (more : List (Action Resource)) :
    releases resource (after ++ more) = after.count (.release resource) + releases resource more := by
  have hall : after.takeWhile (· ≠ .acquire resource) = after := by
    rw [List.takeWhile_eq_self_iff]
    intro action haction
    have hne : action ≠ .acquire resource := fun heq => h (heq ▸ haction)
    simpa using hne
  rw [releases, List.takeWhile_append, if_pos (by rw [hall]), List.count_append, releases]

theorem releases_of_last {resource : Resource} {after : List (Action Resource)}
    (h : .acquire resource ∉ after) : releases resource after = after.count (.release resource) := by
  have hnil := releases_append_of_not_mem h []
  rw [List.append_nil] at hnil
  rw [hnil]
  rfl

theorem releases_le_append (resource : Resource) (after more : List (Action Resource)) :
    releases resource after ≤ releases resource (after ++ more) := by
  by_cases h : .acquire resource ∈ after
  · exact (releases_append_of_mem h more).ge
  · rw [releases_of_last h, releases_append_of_not_mem h more]
    exact Nat.add_le_add_left (Nat.zero_le _) _

/-- No resource is released twice without being acquired in between. -/
def AtMostOnce (history : List (Action Resource)) : Prop :=
  ∀ before resource after, history = before ++ .acquire resource :: after →
    releases resource after ≤ 1

/-- Every resource that has been acquired has been released, once. -/
def ExactlyOnce (history : List (Action Resource)) : Prop :=
  ∀ before resource after, history = before ++ .acquire resource :: after →
    releases resource after = 1

theorem AtMostOnce.of_append {history more : List (Action Resource)} (h : AtMostOnce (history ++ more)) :
    AtMostOnce history := by
  rintro before resource after rfl
  apply (releases_le_append resource after more).trans
  apply h before
  rw [List.append_assoc, List.cons_append]

theorem not_atMostOnce_of_twice {history : List (Action Resource)} {resource : Resource} :
    ¬ AtMostOnce (history ++ [.acquire resource, .release resource, .release resource]) := by
  intro h
  have htwice := h history resource [.release resource, .release resource] rfl
  simp [releases] at htwice

end Releases

/-- A history in which only what is not held is acquired and only what is held is released, and what is
held after it. -/
inductive Ledger : List (Action Resource) → Set Resource → Prop where
  | empty : Ledger [] ∅
  | acquire {history : List (Action Resource)} {held : Set Resource} {resource : Resource}
      (h : Ledger history held) (hfree : resource ∉ held) :
      Ledger (history ++ [.acquire resource]) (insert resource held)
  | release {history : List (Action Resource)} {held : Set Resource} {resource : Resource}
      (h : Ledger history held) (hheld : resource ∈ held) :
      Ledger (history ++ [.release resource]) (held \ {resource})

namespace Ledger

variable {history : List (Action Resource)} {held : Set Resource} {resource : Resource}

/-- An acquisition and a release at once. -/
theorem borrow (h : Ledger history held) (hfree : resource ∉ held) :
    Ledger (history ++ [.acquire resource, .release resource]) held := by
  have hreleased := (h.acquire hfree).release (Set.mem_insert resource held)
  rw [List.append_assoc, Set.insert_sdiff_self_of_notMem hfree] at hreleased
  exact hreleased

variable [DecidableEq Resource]

/-- Since its last acquisition a resource has been released once if it is not held, and not at all if it
is. -/
theorem count_release (h : Ledger history held) {before after : List (Action Resource)}
    (hsplit : history = before ++ .acquire resource :: after) (hlast : .acquire resource ∉ after) :
    (resource ∈ held ∧ after.count (.release resource) = 0) ∨
      (resource ∉ held ∧ after.count (.release resource) = 1) := by
  induction h generalizing after with
  | empty => simp at hsplit
  | @acquire history held other h hfree ih =>
      rcases List.eq_nil_or_concat' after with rfl | ⟨after, action, rfl⟩
      · rw [List.append_singleton_inj] at hsplit
        obtain ⟨-, hsame⟩ := hsplit
        injection hsame with hsame
        subst hsame
        exact Or.inl ⟨Set.mem_insert _ _, rfl⟩
      · rw [← List.cons_append, ← List.append_assoc, List.append_singleton_inj] at hsplit
        obtain ⟨hhistory, rfl⟩ := hsplit
        rw [List.mem_append, not_or, List.mem_singleton] at hlast
        have hne : resource ≠ other := fun heq => hlast.2 (heq ▸ rfl)
        rw [List.count_append, Set.mem_insert_iff, or_iff_right hne]
        exact ih hhistory hlast.1
  | @release history held other h hheld ih =>
      rcases List.eq_nil_or_concat' after with rfl | ⟨after, action, rfl⟩
      · rw [List.append_singleton_inj] at hsplit
        obtain ⟨-, hsame⟩ := hsplit
        cases hsame
      · rw [← List.cons_append, ← List.append_assoc, List.append_singleton_inj] at hsplit
        obtain ⟨hhistory, rfl⟩ := hsplit
        rw [List.mem_append, not_or] at hlast
        have hbefore := ih hhistory hlast.1
        by_cases heq : resource = other
        · subst heq
          have hcount := hbefore.resolve_right fun hnot => hnot.1 hheld
          refine Or.inr ⟨fun hmem => hmem.2 rfl, ?_⟩
          rw [List.count_append, hcount.2]
          simp
        · have hother : List.count (.release resource) [Action.release other] = 0 := by
            rw [List.count_eq_zero, List.mem_singleton]
            exact fun hsame => heq (by injection hsame)
          rw [List.count_append, hother, Set.mem_sdiff, Set.mem_singleton_iff, and_iff_left heq]
          exact hbefore

/-- Before a resource is acquired again it has been released once. -/
theorem releases_of_mem (h : Ledger history held) {before after : List (Action Resource)}
    (hsplit : history = before ++ .acquire resource :: after) (hagain : .acquire resource ∈ after) :
    releases resource after = 1 := by
  induction h generalizing after with
  | empty => simp at hsplit
  | @acquire history held other h hfree ih =>
      rcases List.eq_nil_or_concat' after with rfl | ⟨after, action, rfl⟩
      · cases hagain
      · rw [← List.cons_append, ← List.append_assoc, List.append_singleton_inj] at hsplit
        obtain ⟨hhistory, rfl⟩ := hsplit
        by_cases hmem : .acquire resource ∈ after
        · rw [releases_append_of_mem hmem]
          exact ih hhistory hmem
        · rw [List.mem_append, or_iff_right hmem, List.mem_singleton] at hagain
          injection hagain with hsame
          subst hsame
          have hcount := (h.count_release hhistory hmem).resolve_left fun hin => hfree hin.1
          rw [releases_append_of_not_mem hmem, hcount.2]
          simp [releases]
  | @release history held other h hheld ih =>
      rcases List.eq_nil_or_concat' after with rfl | ⟨after, action, rfl⟩
      · cases hagain
      · rw [← List.cons_append, ← List.append_assoc, List.append_singleton_inj] at hsplit
        obtain ⟨hhistory, rfl⟩ := hsplit
        have hmem : .acquire resource ∈ after := by
          rw [List.mem_append, List.mem_singleton] at hagain
          exact hagain.resolve_right fun hsame => by cases hsame
        rw [releases_append_of_mem hmem]
        exact ih hhistory hmem

theorem atMostOnce (h : Ledger history held) : AtMostOnce history := by
  intro before resource after hsplit
  by_cases hmem : .acquire resource ∈ after
  · exact (h.releases_of_mem hsplit hmem).le
  · rw [releases_of_last hmem]
    rcases h.count_release hsplit hmem with ⟨-, hcount⟩ | ⟨-, hcount⟩
    · rw [hcount]
      exact Nat.zero_le 1
    · exact hcount.le

/-- What is not held any more has been released once for every time it was acquired. -/
theorem releases_eq_one (h : Ledger history held) (hreleased : resource ∉ held)
    {before after : List (Action Resource)}
    (hsplit : history = before ++ .acquire resource :: after) : releases resource after = 1 := by
  by_cases hmem : .acquire resource ∈ after
  · exact h.releases_of_mem hsplit hmem
  · rw [releases_of_last hmem]
    exact ((h.count_release hsplit hmem).resolve_left fun hin => hreleased hin.1).2

theorem exactlyOnce (h : Ledger history ∅) : ExactlyOnce history :=
  fun _ _ _ hsplit => h.releases_eq_one (Set.notMem_empty _) hsplit

end Ledger

end ResourceLedger
