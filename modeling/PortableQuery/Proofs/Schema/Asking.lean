import PortableQuery.Schema.Source

set_option autoImplicit false

/-!
# Computations that ask a schema

A schema may count the questions or remember the answers, so asking it has a state, which stays as
it is left when a computation fails.
-/

namespace PortableQuery

/-- Computations that may fail, with the state of a schema. -/
abbrev Asking (σ : Type) : Type → Type := ExceptT QueryError (StateM σ)

namespace Asking

variable {σ α β : Type}

/-- The outcome of a computation from a state, and the state that it leaves. -/
def outcome (x : Asking σ α) (s : σ) : Except QueryError α × σ := x.run.run s

@[simp] theorem outcome_pure (a : α) (s : σ) : outcome (pure a) s = (.ok a, s) := rfl

@[simp] theorem outcome_throw (e : QueryError) (s : σ) :
    outcome (throw e : Asking σ α) s = (.error e, s) := rfl

theorem outcome_bind (x : Asking σ α) (f : α → Asking σ β) (s : σ) :
    outcome (x >>= f) s = match outcome x s with
      | (.ok a, s') => outcome (f a) s'
      | (.error e, s') => (.error e, s') := by
  simp only [outcome, ExceptT.run_bind, StateT.run_bind]
  generalize StateT.run (ExceptT.run x) s = r
  obtain ⟨_ | _, _⟩ := r <;> rfl

/-- Every success of the computation has the property. -/
def Gives (x : Asking σ α) (P : α → Prop) : Prop :=
  ∀ s a s', outcome x s = (.ok a, s') → P a

namespace Gives

variable {P : α → Prop} {Q : β → Prop}

theorem pure {a : α} (h : P a) : Gives (Pure.pure a : Asking σ α) P := by
  rintro s _ _ ⟨⟩
  exact h

theorem throw (e : QueryError) : Gives (MonadExcept.throw e : Asking σ α) P := nofun

theorem bind {x : Asking σ α} {f : α → Asking σ β} (hx : Gives x P)
    (hf : ∀ a, P a → Gives (f a) Q) : Gives (x >>= f) Q := by
  intro s b s'' h
  rw [outcome_bind] at h
  split at h
  · next a s' ha => exact hf a (hx s a s' ha) s' b s'' h
  · cases h

theorem any (x : Asking σ α) : Gives x fun _ => True := fun _ _ _ _ => trivial

/-- **What is computed item by item is undone item by item.** -/
theorem mapM {f : α → Asking σ β} {g : β → α} {xs : List α}
    (h : ∀ x ∈ xs, Gives (f x) fun y => g y = x) : Gives (xs.mapM f) fun ys => ys.map g = xs := by
  induction xs with
  | nil => exact .pure rfl
  | cons x xs ih =>
    rw [List.forall_mem_cons] at h
    rw [List.mapM_cons]
    refine h.1.bind fun y hy => (ih h.2).bind fun ys hys => .pure ?_
    rw [List.map_cons, hy, hys]

end Gives

end Asking

end PortableQuery
