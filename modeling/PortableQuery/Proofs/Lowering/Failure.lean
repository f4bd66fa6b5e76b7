import PortableQuery.Proofs.Lowering.Keys
import PortableQuery.Proofs.Lowering.Support

set_option autoImplicit false

/-!
# How a walk can fail

A computation fails where one of its steps does, so a property of all errors of the steps is a
property of all errors of the whole. The walk over a condition is taken apart here for that: the
shape checks and conversions of predicates, the binding of values, and what the dialect does.
-/

namespace PortableQuery

/-! ## Computations -/

/-- Every error of the computation has the property. -/
def ErrsOnly {ε α : Type} (P : ε → Prop) (x : Except ε α) : Prop := ∀ e, x = .error e → P e

namespace ErrsOnly

variable {ε α β : Type} {P Q : ε → Prop}

theorem ok (a : α) : ErrsOnly P (.ok a) := nofun

theorem error {e : ε} (h : P e) : ErrsOnly P (.error e : Except ε α) := by
  rintro _ ⟨⟩
  exact h

theorem bind {x : Except ε α} {f : α → Except ε β} (hx : ErrsOnly P x)
    (hf : ∀ a, x = .ok a → ErrsOnly P (f a)) : ErrsOnly P (x >>= f) := by
  intro e h
  rcases bind_eq_error.mp h with h | ⟨a, ha, h⟩
  · exact hx e h
  · exact hf a ha e h

theorem map {x : Except ε α} (f : α → β) (hx : ErrsOnly P x) : ErrsOnly P (x.map f) := by
  cases x with
  | ok a => exact .ok (f a)
  | error e => exact .error (hx e rfl)

theorem ofExcept {x : Except ε α} (hx : ErrsOnly P x) :
    ErrsOnly P (MonadExcept.ofExcept x : Except ε α) := by
  rwa [ofExcept_eq]

theorem imp {x : Except ε α} (hx : ErrsOnly P x) (h : ∀ e, P e → Q e) : ErrsOnly Q x :=
  fun e he => h e (hx e he)

theorem mapM {f : α → Except ε β} {xs : List α} (hf : ∀ x ∈ xs, ErrsOnly P (f x)) :
    ErrsOnly P (xs.mapM f) := by
  induction xs with
  | nil => exact .ok []
  | cons x xs ih =>
    rw [List.forall_mem_cons] at hf
    rw [List.mapM_cons]
    exact hf.1.bind fun y _ => (ih hf.2).bind fun ys _ => .ok (y :: ys)

end ErrsOnly

/-- The error is one of conversion, at some field of the entity. -/
def QueryError.IsConversion (entity : String) (e : QueryError) : Prop :=
  ∃ field fault, e = .conversion entity field fault

theorem Scope.isConversion_error (scope : Scope) (fault : ConversionFault) :
    (scope.error fault).IsConversion scope.entity :=
  ⟨scope.field, fault, rfl⟩

/-! ## Binding -/

namespace Binder

variable {N : Type} {P : QueryError → Prop} (hP : ∀ name, P (.bindingConflict name))

include hP

theorem errsOnly_bind (b : Binder N) (field : String) (v : N) : ErrsOnly P (b.bind field v) := by
  unfold bind
  split
  · exact .ok _
  · exact .ok _
  · exact .ok _
  · unfold bindNamed
    split
    · exact .error (hP _)
    · exact .ok _

theorem errsOnly_bindAll (b : Binder N) (field : String) (vs : List N) :
    ErrsOnly P (b.bindAll field vs) := by
  induction vs generalizing b with
  | nil => exact .ok _
  | cons v vs ih =>
    exact (errsOnly_bind hP b field v).bind fun r _ => (ih r.2).bind fun _ _ => .ok _

end Binder

/-! ## Predicates -/

namespace Dialect

variable {F N : Type} {d : Dialect (Except QueryError) F N} {config : CompilerConfig}
  {entity : String} {P : QueryError → Prop}

/-- The property holds of what is reported of the shape of a predicate. -/
structure ShapeErrors (P : QueryError → Prop) : Prop where
  emptyField (o : Operator) : P (.invalid (.emptyField o))
  betweenShape (field : String) : P (.invalid (.betweenShape field))
  oneOfShape (field : String) : P (.invalid (.oneOfShape field))
  oneOfEmpty (field : String) : P (.invalid (.oneOfEmpty field))
  oneOfNested (field : String) : P (.invalid (.oneOfNested field))
  likeShape (field : String) : P (.invalid (.likeShape field))

section Predicate

variable (hshape : ShapeErrors P) (hnative : ∀ scope v, ErrsOnly P (d.toNative scope v))

include hshape hnative

theorem errsOnly_operand (scope : Scope) (o : Operator) (v : Value) :
    ErrsOnly P (d.operand scope o v) := by
  unfold operand
  split
  · split
    · exact (hnative _ _).bind fun _ _ => (hnative _ _).bind fun _ _ => .ok _
    · exact .error (hshape.betweenShape _)
  · split
    · exact .error (hshape.oneOfShape _)
    · exact .error (hshape.oneOfEmpty _)
    · split
      · exact (ErrsOnly.mapM fun v _ => hnative scope v).bind fun _ _ => .ok _
      · exact .error (hshape.oneOfNested _)
  · split
    · exact (hnative _ _).bind fun _ _ => .ok _
    · exact .error (hshape.likeShape _)
  · exact (hnative _ _).bind fun _ _ => .ok _

theorem errsOnly_predicate (o : Operator) (e : Element) :
    ErrsOnly P (d.predicate config entity o e) := by
  unfold predicate
  split
  · exact .error (hshape.emptyField o)
  · exact (errsOnly_operand hshape hnative _ o e.value).bind fun _ _ => .ok _

/-- A predicate that asks for keys is refused for its shape or for null, and for nothing else: its
operand is a value or a choice, never a range. -/
theorem errsOnly_keys (hnull : ∀ o field, P (.invalid (.nullKey o field))) {k : Condition}
    {v : Value} (hk : k.Wants config.idField v) : ErrsOnly P (d.keys config entity k) := by
  have hkeys (o : Operator) (v : Value) (ho : o ≠ .between) :
      ErrsOnly P (d.keys config entity (.predicate o ⟨config.idField, v⟩)) := by
    simp only [keys]
    split
    · exact .error (hnull _ _)
    · refine (errsOnly_predicate hshape hnative _ _).bind fun p hp => ?_
      obtain ⟨-, x, hx, rfl⟩ := converts_of_predicate_eq_ok hp
      dsimp only at hx
      cases hx with
      | range => contradiction
      | choice | pattern | value => exact .ok _
  cases hk with
  | equals => exact hkeys _ _ (by decide)
  | oneOf => exact hkeys _ _ (by decide)

end Predicate

/-! ## The walk -/

variable (d config entity P) in
/-- What the dialect makes of conditions that it can express, its errors have the property. -/
structure StepErrors : Prop where
  emptyJoin (c : Connective) : P (.invalid (.emptyJoin c))
  predicate (o : Operator) (e : Element) : ErrsOnly P (d.predicate config entity o e)
  lower {o : Operator} {e : Element} {p : Predicate N} (b : Binder N)
    (ho : o ∈ d.capabilities.operators) (hp : d.predicate config entity o e = .ok p) :
    ErrsOnly P (d.lower p b)
  join {c : Connective} (fs : List F) (hc : d.capabilities.joins c = true) :
    ErrsOnly P (d.join c fs)
  /-- What is negated is what a condition was lowered to. -/
  negate {c : Condition} {b b' : Binder N} {f : F}
    (hc : d.capabilities.badNegation c = none)
    (hf : d.lowerCondition config entity c b = .ok (f, b')) : ErrsOnly P (d.negate f)

theorem errsOnly_lowerAll {cs : List Condition}
    (hcs : ∀ c ∈ cs, ∀ b, ErrsOnly P (d.lowerCondition config entity c b)) (b : Binder N) :
    ErrsOnly P (d.lowerAll config entity cs b) := by
  induction cs generalizing b with
  | nil => exact .ok _
  | cons c cs ih =>
    rw [List.forall_mem_cons] at hcs
    exact (hcs.1 b).bind fun r _ => (ih hcs.2 r.2).bind fun _ _ => .ok _

/-- **What holds of all errors of the steps holds of all errors of the walk, if the condition can be
expressed.** -/
theorem errsOnly_lowerCondition (hsteps : d.StepErrors config entity P) {c : Condition}
    (hc : d.capabilities.firstUnsupported c = none) (b : Binder N) :
    ErrsOnly P (d.lowerCondition config entity c b) := by
  induction c using Condition.induct generalizing b with
  | predicate o e =>
    have ho := Capabilities.firstUnsupported_predicate_eq_none.mp hc
    exact (hsteps.predicate o e).bind fun p hp => (hsteps.lower b ho hp).ofExcept
  | join c cs ih =>
    obtain ⟨hjoins, hcs⟩ := Capabilities.firstUnsupported_join_eq_none.mp hc
    have hparts : ∀ x ∈ cs, ∀ b, ErrsOnly P (d.lowerCondition config entity x b) :=
      fun x hx b => ih x hx (hcs x hx) b
    simp only [lowerCondition]
    split
    · exact .error (hsteps.emptyJoin c)
    · exact (errsOnly_lowerAll hparts b).bind fun r _ =>
        (hsteps.join r.1 hjoins).ofExcept.bind fun _ _ => .ok _
  | not c ih =>
    obtain ⟨hnegation, hchild⟩ := Capabilities.firstUnsupported_not_eq_none.mp hc
    simp only [lowerCondition]
    exact (ih hchild b).bind fun r hr =>
      (hsteps.negate hnegation hr).ofExcept.bind fun _ _ => .ok _

theorem firstUnsupported_of_keySplit? {c : Condition} {split : KeySplit}
    (hsplit : d.keySplit? config c = some split) (hc : d.capabilities.firstUnsupported c = none) :
    ∀ x ∈ residual split.rest, d.capabilities.firstUnsupported x = none := by
  cases splitsAt_of_keySplit? hsplit with
  | root => nofun
  | @part pre post k _ _ _ =>
    obtain ⟨hand, hchildren⟩ := Capabilities.firstUnsupported_join_eq_none.mp hc
    have hrest : ∀ x ∈ pre ++ post, d.capabilities.firstUnsupported x = none :=
      fun x hx => hchildren x (((List.sublist_cons_self k post).append_left pre).subset hx)
    dsimp only
    generalize pre ++ post = rest at hrest
    match rest with
    | [] => nofun
    | [y] =>
      rintro x ⟨⟩
      exact hrest y List.mem_cons_self
    | y :: z :: ys =>
      rintro x ⟨⟩
      exact Capabilities.firstUnsupported_join_eq_none.mpr ⟨hand, hrest⟩

/-- **What holds of all errors of the steps, and of what is wrong with keys, holds of all errors of
lowering a query.** -/
theorem errsOnly_lowerRoot (hsteps : d.StepErrors config entity P)
    (hkeys : ∀ {k v}, k.Wants config.idField v → ErrsOnly P (d.keys config entity k))
    {c : Condition} (hc : d.capabilities.firstUnsupported c = none) :
    ErrsOnly P (d.lowerRoot config entity c) := by
  unfold lowerRoot
  dsimp only
  split
  · next split hsplit =>
    have hrest := firstUnsupported_of_keySplit? hsplit hc
    obtain ⟨v, hv⟩ := (splitsAt_of_keySplit? hsplit).wants
    refine (hkeys hv).bind fun keys _ => ErrsOnly.bind ?_ fun _ _ => .ok _
    rw [lowerRest_eq]
    split
    · exact .ok _
    · next c hresidual => exact (errsOnly_lowerCondition hsteps (hrest c hresidual) _).map _
  · exact (errsOnly_lowerCondition hsteps hc _).bind fun _ _ => .ok _

end Dialect

end PortableQuery
