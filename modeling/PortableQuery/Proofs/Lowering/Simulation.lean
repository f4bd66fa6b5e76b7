import PortableQuery.Lowering.Compile
import PortableQuery.Proofs.Formula

set_option autoImplicit false

/-!
# One walk with two schemas

The walk over a condition does nothing in its monad but convert values, so computations of two kinds
correspond on whole walks if they correspond where values are converted.
-/

namespace PortableQuery

/-- A correspondence between computations of two kinds that holds of results and of errors, and step
by step. -/
structure Simulation (m n : Type → Type) [Monad m] [Monad n] [MonadExceptOf QueryError m]
    [MonadExceptOf QueryError n] where
  Rel : {α : Type} → m α → n α → Prop
  pure {α : Type} (a : α) : Rel (pure a : m α) (pure a)
  throw {α : Type} (e : QueryError) : Rel (throw e : m α) (throw e)
  bind {α β : Type} {x : m α} {y : n α} {f : α → m β} {g : α → n β} (h : Rel x y)
    (hfg : ∀ a, Rel (f a) (g a)) : Rel (x >>= f) (y >>= g)

variable {m n : Type → Type} [Monad m] [Monad n] [MonadExceptOf QueryError m]
  [MonadExceptOf QueryError n]

/-- The dialect with another conversion of values, in a monad of its own. -/
def Dialect.converting {F N : Type} (d : Dialect m F N) (toNative : Scope → Value → n N) :
    Dialect n F N :=
  { d with toNative := toNative }

namespace Simulation

variable (S : Simulation m n)

theorem ofExcept {α : Type} (x : Except QueryError α) :
    S.Rel (MonadExcept.ofExcept x : m α) (MonadExcept.ofExcept x) := by
  cases x with
  | ok a => exact S.pure a
  | error e => exact S.throw e

theorem mapM [LawfulMonad m] [LawfulMonad n] {α β : Type} {f : α → m β} {g : α → n β} {xs : List α}
    (h : ∀ x ∈ xs, S.Rel (f x) (g x)) : S.Rel (xs.mapM f) (xs.mapM g) := by
  induction xs with
  | nil => exact S.pure []
  | cons x xs ih =>
    rw [List.forall_mem_cons] at h
    rw [List.mapM_cons, List.mapM_cons]
    exact S.bind h.1 fun y => S.bind (ih h.2) fun ys => S.pure (y :: ys)

section Dialect

variable {F N : Type} {d : Dialect m F N} {native : Scope → Value → n N}
  (config : CompilerConfig) (entity : String)

theorem lowerAll {cs : List Condition} (hcs : ∀ c ∈ cs, ∀ b, S.Rel
      (d.lowerCondition config entity c b) ((d.converting native).lowerCondition config entity c b))
    (b : Binder N) : S.Rel (d.lowerAll config entity cs b)
      ((d.converting native).lowerAll config entity cs b) := by
  induction cs generalizing b with
  | nil => exact S.pure ([], b)
  | cons c cs ih =>
    rw [List.forall_mem_cons] at hcs
    exact S.bind (hcs.1 b) fun r => S.bind (ih hcs.2 r.2) fun _ => S.pure _

variable [LawfulMonad m] [LawfulMonad n]
  (hd : ∀ scope v, S.Rel (d.toNative scope v) (native scope v))

include hd

theorem operand (scope : Scope) (o : Operator) (v : Value) :
    S.Rel (d.operand scope o v) ((d.converting native).operand scope o v) := by
  have hsingle (v : Value) : S.Rel
      (do let value ← d.toNative scope v; Pure.pure (Operand.single value))
      (do let value ← native scope v; Pure.pure (Operand.single value)) :=
    S.bind (hd scope v) fun _ => S.pure _
  unfold Dialect.operand
  split
  · split
    · exact S.bind (hd _ _) fun _ => S.bind (hd _ _) fun _ => S.pure _
    · exact S.throw _
  · split
    · exact S.throw _
    · exact S.throw _
    · split
      · exact S.bind (S.mapM fun v _ => hd scope v) fun _ => S.pure _
      · exact S.throw _
  · split
    · exact hsingle v
    · exact S.throw _
  · exact hsingle v

theorem predicate (o : Operator) (e : Element) :
    S.Rel (d.predicate config entity o e) ((d.converting native).predicate config entity o e) := by
  unfold Dialect.predicate
  split
  · exact S.throw _
  · exact S.bind (S.operand hd _ o e.value) fun _ => S.pure _

theorem lowerCondition (c : Condition) (b : Binder N) :
    S.Rel (d.lowerCondition config entity c b)
      ((d.converting native).lowerCondition config entity c b) := by
  induction c using Condition.induct generalizing b with
  | predicate o e =>
    exact S.bind (S.predicate config entity hd o e) fun p => S.ofExcept (d.lower p b)
  | join c cs ih =>
    have hjoined := S.bind (S.lowerAll config entity ih b) fun r =>
      S.bind (S.ofExcept (d.join c r.1)) fun f => S.pure (f, r.2)
    simp only [Dialect.lowerCondition]
    split
    · exact S.bind (S.throw _) fun _ => hjoined
    · exact hjoined
  | not c ih => exact S.bind (ih b) fun r => S.bind (S.ofExcept (d.negate r.1)) fun _ => S.pure _

theorem lowerRest (rest : List Condition) (b : Binder N) :
    S.Rel (d.lowerRest config entity rest b)
      ((d.converting native).lowerRest config entity rest b) := by
  match rest with
  | [] => exact S.pure _
  | [c] => exact S.bind (S.lowerCondition config entity hd c b) fun _ => S.pure _
  | c :: c' :: cs =>
    exact S.bind (S.lowerAll config entity (fun c _ => S.lowerCondition config entity hd c) b)
      fun r => S.bind (S.ofExcept (d.join .and r.1)) fun _ => S.pure _

theorem keys (c : Condition) :
    S.Rel (d.keys config entity c) ((d.converting native).keys config entity c) := by
  unfold Dialect.keys
  split
  · next o e =>
    have hpredicate := S.predicate config entity hd o e
    split
    · refine S.bind (S.throw _) fun _ => S.bind hpredicate fun p => ?_
      split <;> first | exact S.pure _ | exact S.throw _
    · refine S.bind hpredicate fun p => ?_
      split <;> first | exact S.pure _ | exact S.throw _
  · exact S.throw _

theorem lowerRoot (c : Condition) :
    S.Rel (d.lowerRoot config entity c) ((d.converting native).lowerRoot config entity c) := by
  have hsplit : (d.converting native).keySplit? config c = d.keySplit? config c := rfl
  unfold Dialect.lowerRoot
  rw [hsplit]
  cases d.keySplit? config c with
  | some split =>
    exact S.bind (S.keys config entity hd split.key) fun _ =>
      S.bind (S.lowerRest config entity hd split.rest _) fun _ => S.pure _
  | none => exact S.bind (S.lowerCondition config entity hd c _) fun _ => S.pure _

/-- **Dialects whose conversions correspond compile alike.** -/
theorem compile (q : Query) :
    S.Rel (d.compile config q) ((d.converting native).compile config q) := by
  have hpaging : (d.converting native).badPaging q = d.badPaging q := rfl
  have hassemble (l : Lowered F N) : S.Rel
      (MonadExcept.ofExcept (d.assemble config q l) : m (Statement F N))
      (MonadExcept.ofExcept ((d.converting native).assemble config q l)) := S.ofExcept _
  unfold Dialect.compile
  rw [hpaging]
  -- what stands behind a `throw` corresponds as well, though it is not reached
  cases q.condition with
  | none =>
    have hempty := S.bind (S.pure Lowered.empty) hassemble
    cases d.badPaging q with
    | some operation => exact S.bind (S.throw _) fun _ => hempty
    | none => exact hempty
  | some c =>
    have hlowered := S.bind (S.ofExcept (d.capabilities.check d.name c)) fun _ =>
      S.bind (S.lowerRoot config q.entity hd c) hassemble
    cases d.badPaging q with
    | some operation => exact S.bind (S.throw _) fun _ => hlowered
    | none => exact hlowered

end Dialect

end Simulation

end PortableQuery
