import Mathlib.Data.List.Basic
import Mathlib.Logic.Relation

/-!
# Weakest preconditions

What holds after a stateful program, for `StateM` and for `EStateM`, where a program may also end in
an exception that keeps the state. The rules below, used as rewrite rules, turn a statement about a
`do` block into one about values and states.
-/

namespace Program

variable {ε σ α β : Type}

/-! ### Programs that always return -/

/-- `post` holds of the result and the final state of `m` from `s`. -/
def After (m : StateM σ α) (s : σ) (post : α → σ → Prop) : Prop := post (m.run s).1 (m.run s).2

section After

variable {s : σ} {post : α → σ → Prop}

theorem After.run {m : StateM σ α} (h : After m s post) : post (m.run s).1 (m.run s).2 := h

theorem After.mono {m : StateM σ α} {post' : α → σ → Prop} (h : After m s post)
    (himp : ∀ a s', post a s' → post' a s') : After m s post' := himp _ _ h

theorem After.and {m : StateM σ α} {post' : α → σ → Prop} (h : After m s post)
    (h' : After m s post') : After m s fun a s' => post a s' ∧ post' a s' := ⟨h, h'⟩

theorem After.bind {m : StateM σ β} {f : β → StateM σ α} {post' : β → σ → Prop} (h : After m s post')
    (hf : ∀ b s', post' b s' → After (f b) s' post) : After (m >>= f) s post := h.mono hf

/-- A statement about the result that amounts to one that does not depend on it. -/
theorem after_iff {m : StateM σ α} (p : Prop) :
    After m s (fun a s' => post a s' ↔ p) ↔ (After m s post ↔ p) := Iff.rfl

/-- A program that need not be looked at. -/
theorem After.of_forall {m : StateM σ α} (h : ∀ a s', post a s') : After m s post := h _ _

@[simp]
theorem after_pure {a : α} : After (pure a) s post ↔ post a s := Iff.rfl

@[simp]
theorem after_bind {m : StateM σ β} {f : β → StateM σ α} :
    After (m >>= f) s post ↔ After m s fun b s' => After (f b) s' post := Iff.rfl

@[simp]
theorem after_get {post : σ → σ → Prop} : After get s post ↔ post s s := Iff.rfl

@[simp]
theorem after_set {s' : σ} {post : PUnit → σ → Prop} : After (set s') s post ↔ post ⟨⟩ s' := Iff.rfl

@[simp]
theorem after_modify {f : σ → σ} {post : PUnit → σ → Prop} :
    After (modify f) s post ↔ post ⟨⟩ (f s) := Iff.rfl

@[simp]
theorem after_ite {p : Prop} [Decidable p] {m m' : StateM σ α} :
    After (if p then m else m') s post ↔ (p → After m s post) ∧ (¬ p → After m' s post) := by
  split_ifs with hp <;> simp [hp]

end After

/-! ### Programs that only take certain steps -/

section Runs

open Relation

variable {step : σ → σ → Prop}

/-- What every step preserves, a sequence of steps preserves. -/
theorem invariant_of_steps (inv : σ → Prop) (hstep : ∀ a b, inv a → step a b → inv b) {s s' : σ}
    (h : ReflTransGen step s s') (hs : inv s) : inv s' := by
  induction h with
  | refl => exact hs
  | tail _ hlast ih => exact hstep _ _ ih hlast

/-- Whatever `m` does amounts to a sequence of `step`s. -/
def Runs (step : σ → σ → Prop) (m : StateM σ α) : Prop :=
  ∀ s, After m s fun _ s' => ReflTransGen step s s'

theorem Runs.pure (a : α) : Runs step (Pure.pure a : StateM σ α) := fun _ => ReflTransGen.refl

theorem Runs.single {m : StateM σ α} (h : ∀ s, After m s fun _ s' => step s s') : Runs step m :=
  fun s => ReflTransGen.single (h s)

theorem Runs.bind {m : StateM σ β} {f : β → StateM σ α} (h : Runs step m)
    (hf : ∀ b, Runs step (f b)) : Runs step (m >>= f) := fun s =>
  (h s).mono fun b s' hs' => (hf b s').mono fun _ _ hs'' => hs'.trans hs''

theorem Runs.get_bind {f : σ → StateM σ α} (hf : ∀ s, Runs step (f s)) :
    Runs step (get >>= f) := fun s => hf s s

theorem Runs.ite {p : Prop} [Decidable p] {m m' : StateM σ α} (h : Runs step m)
    (h' : Runs step m') : Runs step (if p then m else m') := by
  split_ifs
  · exact h
  · exact h'

theorem Runs.mono {step' : σ → σ → Prop} {m : StateM σ α} (h : Runs step m)
    (himp : ∀ a b, step a b → step' a b) : Runs step' m :=
  fun s => After.mono (h s) fun _ _ => ReflTransGen.mono himp _ _

end Runs

/-! ### Programs that may throw -/

/-- `m` from `s` returns with `post` or throws with `throws`. -/
def Ends (m : EStateM ε σ α) (s : σ) (post : α → σ → Prop) (throws : ε → σ → Prop) : Prop :=
  match m.run s with
  | .ok a s' => post a s'
  | .error e s' => throws e s'

section Ends

variable {s : σ} {post : α → σ → Prop} {throws : ε → σ → Prop}

theorem Ends.mono {m : EStateM ε σ α} {post' : α → σ → Prop} {throws' : ε → σ → Prop}
    (h : Ends m s post throws) (hpost : ∀ a s', post a s' → post' a s')
    (hthrows : ∀ e s', throws e s' → throws' e s') : Ends m s post' throws' := by
  unfold Ends at *
  cases hrun : m.run s with
  | ok a s' =>
      rw [hrun] at h
      exact hpost a s' h
  | error e s' =>
      rw [hrun] at h
      exact hthrows e s' h

theorem Ends.and {m : EStateM ε σ α} {post' : α → σ → Prop} {throws' : ε → σ → Prop}
    (h : Ends m s post throws) (h' : Ends m s post' throws') :
    Ends m s (fun a s' => post a s' ∧ post' a s') fun e s' => throws e s' ∧ throws' e s' := by
  unfold Ends at *
  cases hrun : m.run s with
  | ok a s' =>
      rw [hrun] at h h'
      exact ⟨h, h'⟩
  | error e s' =>
      rw [hrun] at h h'
      exact ⟨h, h'⟩

theorem ends_run (m : EStateM ε σ α) (s : σ) :
    Ends m s (fun a s' => m.run s = .ok a s') fun e s' => m.run s = .error e s' := by
  unfold Ends
  cases m.run s <;> rfl

theorem ends_of_run_ok {m : EStateM ε σ α} {a : α} {s' : σ} (h : m.run s = .ok a s') :
    Ends m s post throws ↔ post a s' := by
  rw [Ends, h]

theorem ends_of_run_error {m : EStateM ε σ α} {e : ε} {s' : σ} (h : m.run s = .error e s') :
    Ends m s post throws ↔ throws e s' := by
  rw [Ends, h]

theorem ends_of_run_eq {m m' : EStateM ε σ α} {s s' : σ} (h : m.run s = m'.run s') :
    Ends m s post throws ↔ Ends m' s' post throws := by
  rw [Ends, Ends, h]

theorem Ends.returns {m : EStateM ε σ α} (h : Ends m s post fun _ _ => False) :
    ∃ a s', m.run s = .ok a s' ∧ post a s' := by
  cases hrun : m.run s with
  | ok a s' => exact ⟨a, s', rfl, (ends_of_run_ok hrun).mp h⟩
  | error e s' => exact ((ends_of_run_error hrun).mp h).elim

instance {m : EStateM ε σ α} [∀ a s', Decidable (post a s')] [∀ e s', Decidable (throws e s')] :
    Decidable (Ends m s post throws) :=
  match hrun : m.run s with
  | .ok a s' => decidable_of_iff (post a s') (ends_of_run_ok hrun).symm
  | .error e s' => decidable_of_iff (throws e s') (ends_of_run_error hrun).symm

@[simp]
theorem ends_pure {a : α} : Ends (pure a) s post throws ↔ post a s := Iff.rfl

@[simp]
theorem ends_bind {m : EStateM ε σ β} {f : β → EStateM ε σ α} :
    Ends (m >>= f) s post throws ↔ Ends m s (fun b s' => Ends (f b) s' post throws) throws := by
  unfold Ends
  rw [EStateM.run_bind]
  cases m.run s <;> rfl

theorem ends_map {m : EStateM ε σ β} {f : β → α} :
    Ends (f <$> m) s post throws ↔ Ends m s (fun b s' => post (f b) s') throws := by
  rw [map_eq_pure_bind, ends_bind]
  exact Iff.rfl

@[simp]
theorem ends_get {post : σ → σ → Prop} : Ends (get : EStateM ε σ σ) s post throws ↔ post s s :=
  Iff.rfl

@[simp]
theorem ends_set {s' : σ} {post : PUnit → σ → Prop} :
    Ends (set s' : EStateM ε σ PUnit) s post throws ↔ post ⟨⟩ s' := Iff.rfl

@[simp]
theorem ends_modify {f : σ → σ} {post : PUnit → σ → Prop} :
    Ends (modify f : EStateM ε σ PUnit) s post throws ↔ post ⟨⟩ (f s) := Iff.rfl

@[simp]
theorem ends_throw {e : ε} : Ends (throw e : EStateM ε σ α) s post throws ↔ throws e s := Iff.rfl

@[simp]
theorem ends_ite {p : Prop} [Decidable p] {m m' : EStateM ε σ α} :
    Ends (if p then m else m') s post throws ↔
      (p → Ends m s post throws) ∧ (¬ p → Ends m' s post throws) := by
  split_ifs with hp <;> simp [hp]

theorem run_bind_of_ok {m : EStateM ε σ β} {f : β → EStateM ε σ α} {b : β} {s' : σ}
    (h : m.run s = .ok b s') : (m >>= f).run s = (f b).run s' := by
  rw [EStateM.run_bind, h]

theorem run_bind_of_error {m : EStateM ε σ β} {f : β → EStateM ε σ α} {e : ε} {s' : σ}
    (h : m.run s = .error e s') : (m >>= f).run s = .error e s' := by
  rw [EStateM.run_bind, h]

theorem run_modify_bind {g : σ → σ} {f : PUnit → EStateM ε σ α} :
    (modify g >>= f).run s = (f ⟨⟩).run (g s) := rfl

theorem Ends.const {m : EStateM ε σ α} {p : Prop} (h : Ends m s (fun _ _ => p) fun _ _ => p) : p := by
  unfold Ends at h
  cases hrun : m.run s with
  | ok a s' =>
      rw [hrun] at h
      exact h
  | error e s' =>
      rw [hrun] at h
      exact h

/-- An invariant of every element's program is one of a loop over a list. -/
theorem ends_forM {inv : σ → Prop} {f : β → EStateM ε σ PUnit} {l : List β}
    (h : ∀ b ∈ l, ∀ s, inv s → Ends (f b) s (fun _ => inv) throws) (hs : inv s) :
    Ends (forM l f) s (fun _ => inv) throws := by
  induction l generalizing s with
  | nil => exact hs
  | cons b l ih =>
      rw [List.forM_cons, ends_bind]
      refine (h b List.mem_cons_self s hs).mono (fun _ s' hs' => ?_) fun _ _ => id
      exact ih (fun b' hb' => h b' (List.mem_cons_of_mem b hb')) hs'

end Ends

/-! ### Programs that leave part of the state alone -/

section Commutes

variable {f : σ → σ}

def mapState (f : σ → σ) : EStateM.Result ε σ α → EStateM.Result ε σ α
  | .ok a s => .ok a (f s)
  | .error e s => .error e (f s)

/-- It makes no difference whether `f` changes the state before or after `m`. -/
def Commutes (f : σ → σ) (m : EStateM ε σ α) : Prop := ∀ s, m.run (f s) = mapState f (m.run s)

theorem commutes_pure (a : α) : Commutes f (pure a : EStateM ε σ α) := fun _ => rfl

theorem commutes_throw (e : ε) : Commutes f (throw e : EStateM ε σ α) := fun _ => rfl

theorem commutes_modify {g : σ → σ} (h : ∀ s, g (f s) = f (g s)) :
    Commutes f (modify g : EStateM ε σ PUnit) := fun s =>
  show EStateM.Result.ok _ (g (f s)) = .ok _ (f (g s)) by rw [h]

theorem Commutes.bind {m : EStateM ε σ β} {k : β → EStateM ε σ α} (h : Commutes f m)
    (hk : ∀ b, Commutes f (k b)) : Commutes f (m >>= k) := by
  intro s
  rw [EStateM.run_bind, EStateM.run_bind, h s]
  cases m.run s with
  | ok b s' => exact hk b s'
  | error e s' => rfl

/-- A program that looks at the state, but not at what `f` changes. -/
theorem Commutes.get_bind {k : σ → EStateM ε σ α} (hsame : ∀ s, k (f s) = k s)
    (hk : ∀ s, Commutes f (k s)) : Commutes f (get >>= k) := by
  intro s
  change (k (f s)).run (f s) = mapState f ((k s).run s)
  rw [hsame]
  exact hk s s

theorem Commutes.ite {p : Prop} [Decidable p] {m m' : EStateM ε σ α} (h : Commutes f m)
    (h' : Commutes f m') : Commutes f (if p then m else m') := by
  split
  · exact h
  · exact h'

theorem Commutes.forM {k : β → EStateM ε σ PUnit} (l : List β) (h : ∀ b ∈ l, Commutes f (k b)) :
    Commutes f (forM l k) := by
  induction l with
  | nil => exact commutes_pure _
  | cons b l ih =>
      rw [List.forM_cons]
      exact (h b List.mem_cons_self).bind fun _ => ih fun b' hb' => h b' (List.mem_cons_of_mem b hb')

end Commutes

section Steps

open Relation

variable {step : σ → σ → Prop} {s : σ}

/-- `m` always returns, and what it does amounts to a sequence of `step`s. -/
def Returns (step : σ → σ → Prop) (m : EStateM ε σ α) : Prop :=
  ∀ s, Ends m s (fun _ s' => ReflTransGen step s s') fun _ _ => False

theorem Returns.pure (a : α) : Returns step (Pure.pure a : EStateM ε σ α) :=
  fun _ => ReflTransGen.refl

theorem Returns.single {f : σ → σ} (h : ∀ s, step s (f s)) :
    Returns step (modify f : EStateM ε σ PUnit) := fun s => ReflTransGen.single (h s)

theorem Returns.bind {m : EStateM ε σ β} {f : β → EStateM ε σ α} (h : Returns step m)
    (hf : ∀ b, Returns step (f b)) : Returns step (m >>= f) := fun s => by
  rw [ends_bind]
  refine (h s).mono (fun b s' hs' => ?_) fun _ _ => id
  exact (hf b s').mono (fun _ _ hs'' => hs'.trans hs'') fun _ _ => id

theorem Returns.get_bind {f : σ → EStateM ε σ α} (hf : ∀ s, Returns step (f s)) :
    Returns step (get >>= f) := fun s => hf s s

theorem Returns.ite {p : Prop} [Decidable p] {m m' : EStateM ε σ α} (h : Returns step m)
    (h' : Returns step m') : Returns step (if p then m else m') := by
  split_ifs
  · exact h
  · exact h'

theorem Returns.forM {f : β → EStateM ε σ PUnit} {l : List β} (h : ∀ b, Returns step (f b)) :
    Returns step (forM l f) := by
  induction l with
  | nil => exact Returns.pure _
  | cons b l ih =>
      rw [List.forM_cons]
      exact (h b).bind fun _ => ih

/-- Whatever `m` does from `s` amounts to a sequence of `step`s, followed by a `last` one if it ends in
an exception. -/
def Steps (step : σ → σ → Prop) (last : ε → σ → σ → Prop) (m : EStateM ε σ α) (s : σ) : Prop :=
  Ends m s (fun _ s' => ReflTransGen step s s') fun e s' =>
    ∃ s₁, ReflTransGen step s s₁ ∧ last e s₁ s'

variable {last : ε → σ → σ → Prop}

theorem Returns.steps {m : EStateM ε σ α} (h : Returns step m) (s : σ) : Steps step last m s :=
  (h s).mono (fun _ _ => id) fun _ _ => False.elim

theorem Steps.mono {step' : σ → σ → Prop} {m : EStateM ε σ α} (h : Steps step last m s)
    (himp : ∀ a b, step a b → step' a b) : Steps step' last m s :=
  Ends.mono h (fun _ _ => ReflTransGen.mono himp _ _) fun _ _ ⟨s₁, hsteps, hlast⟩ =>
    ⟨s₁, ReflTransGen.mono himp _ _ hsteps, hlast⟩

/-- The steps of `m` come after those that lead to where it starts. -/
theorem Steps.after {m : EStateM ε σ α} {s₀ : σ} (h : Steps step last m s)
    (hsteps : ReflTransGen step s₀ s) :
    Ends m s (fun _ s' => ReflTransGen step s₀ s') fun e s' =>
      ∃ s₁, ReflTransGen step s₀ s₁ ∧ last e s₁ s' :=
  Ends.mono h (fun _ _ => hsteps.trans) fun _ _ ⟨s₁, hrest, hlast⟩ => ⟨s₁, hsteps.trans hrest, hlast⟩

theorem Steps.pure (a : α) : Steps step last (Pure.pure a : EStateM ε σ α) s := ReflTransGen.refl

theorem Steps.throw {e : ε} (h : last e s s) :
    Steps step last (MonadExcept.throw e : EStateM ε σ α) s := ⟨s, ReflTransGen.refl, h⟩

theorem Steps.bind {m : EStateM ε σ β} {f : β → EStateM ε σ α} (h : Steps step last m s)
    (hf : ∀ b s', m.run s = .ok b s' → Steps step last (f b) s') : Steps step last (m >>= f) s := by
  unfold Steps at h ⊢
  rw [ends_bind]
  unfold Ends at h
  rw [Ends]
  cases hrun : m.run s with
  | ok b s' =>
      rw [hrun] at h
      exact Steps.after (hf b s' hrun) h
  | error e s' =>
      rw [hrun] at h
      exact h

/-- When what `m` leaves behind is known, the rest need only be looked at from there. -/
theorem Steps.bind_of_ends {m : EStateM ε σ β} {f : β → EStateM ε σ α} {post : β → σ → Prop}
    (h : Ends m s post fun _ _ => False) (hsteps : ∀ b s', post b s' → ReflTransGen step s s')
    (hf : ∀ b s', post b s' → Steps step last (f b) s') : Steps step last (m >>= f) s := by
  unfold Steps
  rw [ends_bind]
  refine h.mono (fun b s' hpost => ?_) fun _ _ => False.elim
  exact (hf b s' hpost).after (hsteps b s' hpost)

theorem Steps.ite {p : Prop} [Decidable p] {m m' : EStateM ε σ α} (h : p → Steps step last m s)
    (h' : ¬ p → Steps step last m' s) : Steps step last (if p then m else m') s := by
  split_ifs with hp
  · exact h hp
  · exact h' hp

theorem Steps.forM {f : β → EStateM ε σ PUnit} {l : List β}
    (h : ∀ b s, Steps step last (f b) s) (s : σ) : Steps step last (forM l f) s := by
  induction l generalizing s with
  | nil => exact Steps.pure _
  | cons b l ih =>
      rw [List.forM_cons]
      exact (h b s).bind fun _ s' _ => ih s'

theorem Steps.get_bind {f : σ → EStateM ε σ α} (h : Steps step last (f s) s) :
    Steps step last (get >>= f) s := h

theorem Steps.update {f : σ → σ} (h : step s (f s)) :
    Steps step last (modify f : EStateM ε σ PUnit) s := ReflTransGen.single h

theorem Steps.update_bind {f : σ → σ} {g : PUnit → EStateM ε σ α} (h : step s (f s))
    (hrest : Steps step last (g ⟨⟩) (f s)) : Steps step last (modify f >>= g) s :=
  (Steps.update h).bind fun _ s' hrun => by
    injection hrun with _ hs'
    exact hs' ▸ hrest

end Steps

end Program
