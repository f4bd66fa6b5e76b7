import PortableQuery.Cql.Native
import PortableQuery.Proofs.Lowering.Failure
import PortableQuery.Proofs.Value

set_option autoImplicit false

/-!
# What values cannot be converted to CQL

A value that has no counterpart, or not the one that its declared type wants, is reported as a
conversion error at a field of the entity, however deep it stands.
-/

namespace PortableQuery

/-- The lookup of a schema that declares these types. -/
def declaredTypes (types : String → String → Option UserType) :
    SchemaLookup (Except QueryError) := fun entity type => .ok (types entity type)

namespace Cql

variable {types : String → String → Option UserType} {scope : Scope}

variable (types) in
theorem errsOnly_resolveType (type : String) :
    ErrsOnly (·.IsConversion scope.entity) (resolveType (declaredTypes types) scope type) := by
  refine ErrsOnly.bind (.ok _) fun t _ => ?_
  cases t with
  | some t => exact .ok t
  | none => exact .error (scope.isConversion_error _)

theorem errsOnly_declaredField (t : UserType) :
    ErrsOnly (·.IsConversion scope.entity) (declaredField t scope) := by
  unfold declaredField
  split
  · exact .ok _
  · exact .error (scope.isConversion_error _)

/-! ## Parts of values -/

section Parts

variable {m : Type → Type} [Monad m] [LawfulMonad m] [MonadExceptOf QueryError m]
  (schema : Option (SchemaLookup m)) (ask : SchemaLookup m) (declared : FieldType) (scope : Scope)

theorem itemsToNative_eq_mapM (vs : List Value) :
    itemsToNative schema scope vs = vs.mapM (toNative schema scope) := by
  induction vs with
  | nil => rfl
  | cons v vs ih => rw [itemsToNative, List.mapM_cons, ih]

theorem entriesToNative_eq_mapM (es : List (Named Value)) :
    entriesToNative schema scope es = es.mapM fun e => (do
      let n ← toNative schema (scope.nested e.name) e.value
      pure ⟨e.name, n⟩) := by
  induction es with
  | nil => rfl
  | cons e es ih =>
    rw [entriesToNative, List.mapM_cons, ih]
    simp only [bind_assoc, pure_bind]

theorem itemsToDeclared_eq_mapM (vs : List Value) :
    itemsToDeclared ask declared scope vs = vs.mapM (toDeclared ask declared scope) := by
  induction vs with
  | nil => rfl
  | cons v vs ih => rw [itemsToDeclared, List.mapM_cons, ih]

theorem entriesToDeclared_eq_mapM (es : List (Named Value)) :
    entriesToDeclared ask declared scope es = es.mapM fun e => (do
      let n ← toDeclared ask declared (scope.nested e.name) e.value
      pure ⟨e.name, n⟩) := by
  induction es with
  | nil => rfl
  | cons e es ih =>
    rw [entriesToDeclared, List.mapM_cons, ih]
    simp only [bind_assoc, pure_bind]

theorem fieldsToDeclared_eq_mapM (t : UserType) (fs : List (Named Value)) :
    fieldsToDeclared ask t scope fs = fs.mapM fun f => (do
      let declared ← MonadExcept.ofExcept (declaredField t (scope.nested f.name))
      let n ← toDeclared ask declared (scope.nested f.name) f.value
      pure ⟨f.name, n⟩) := by
  induction fs with
  | nil => rfl
  | cons f fs ih =>
    rw [fieldsToDeclared, List.mapM_cons, ih]
    simp only [bind_assoc, pure_bind]

end Parts

theorem errsOnly_fieldsToDeclared {ask : SchemaLookup (Except QueryError)} {t : UserType}
    {fs : List (Named Value)} (hfs : ∀ f ∈ fs, ∀ declared,
      ErrsOnly (·.IsConversion scope.entity)
        (toDeclared ask declared (scope.nested f.name) f.value)) :
    ErrsOnly (·.IsConversion scope.entity) (fieldsToDeclared ask t scope fs) := by
  rw [fieldsToDeclared_eq_mapM]
  refine ErrsOnly.mapM fun f hf => ?_
  have hfield : ErrsOnly (·.IsConversion scope.entity) (declaredField t (scope.nested f.name)) :=
    errsOnly_declaredField t
  exact hfield.ofExcept.bind fun declared _ => (hfs f hf declared).bind fun _ _ => .ok _

/-! ## Whole values -/

/-- **Every error of a conversion against a declared type is one of conversion.** -/
theorem errsOnly_toDeclared (types : String → String → Option UserType) (declared : FieldType)
    (scope : Scope) (v : Value) :
    ErrsOnly (·.IsConversion scope.entity)
      (toDeclared (declaredTypes types) declared scope v) := by
  induction v using Value.induct generalizing declared scope with
  | scalar v hv =>
    cases v with
    | list | map | udt => cases hv
    | null => exact .ok _
    | int i =>
      cases declared with
      | int =>
        simp only [toDeclared]
        split
        · exact .ok _
        · exact .error (scope.isConversion_error _)
      | bigint => exact .ok _
      | _ => exact .error (scope.isConversion_error _)
    | _ => cases declared <;> first | exact .ok _ | exact .error (scope.isConversion_error _)
  | list items ih =>
    cases declared with
    | list element =>
      simp only [toDeclared, itemsToDeclared_eq_mapM]
      exact (ErrsOnly.mapM fun v hv => ih v hv element scope).bind fun _ _ => .ok _
    | _ => exact .error (scope.isConversion_error _)
  | map entries ih =>
    cases declared with
    | map value =>
      simp only [toDeclared, entriesToDeclared_eq_mapM]
      exact (ErrsOnly.mapM fun e he => (ih e he value (scope.nested e.name)).bind
        fun _ _ => .ok _).bind fun _ _ => .ok _
    | _ => exact .error (scope.isConversion_error _)
  | udt type fields ih =>
    cases declared with
    | udt name =>
      simp only [toDeclared]
      split
      · refine (errsOnly_resolveType types type).bind fun t _ => ?_
        exact (errsOnly_fieldsToDeclared fun f hf declared => ih f hf declared _).bind
          fun _ _ => .ok _
      · exact .error (scope.isConversion_error _)
    | _ => exact .error (scope.isConversion_error _)

/-- **Every error of a conversion is one of conversion.** -/
theorem errsOnly_toNative (types : Option (String → String → Option UserType)) (scope : Scope)
    (v : Value) :
    ErrsOnly (·.IsConversion scope.entity) (toNative (types.map declaredTypes) scope v) := by
  induction v using Value.induct generalizing scope with
  | scalar v hv =>
    cases v with
    | list | map | udt => cases hv
    | _ => exact .ok _
  | list items ih =>
    simp only [toNative, itemsToNative_eq_mapM]
    exact (ErrsOnly.mapM fun v hv => ih v hv scope).bind fun _ _ => .ok _
  | map entries ih =>
    simp only [toNative, entriesToNative_eq_mapM]
    exact (ErrsOnly.mapM fun e he => (ih e he (scope.nested e.name)).bind
      fun _ _ => .ok _).bind fun _ _ => .ok _
  | udt type fields =>
    cases types with
    | none => exact .error (scope.isConversion_error _)
    | some types =>
      refine (errsOnly_resolveType types type).bind fun t _ => ?_
      exact (errsOnly_fieldsToDeclared fun f _ declared =>
        errsOnly_toDeclared types declared _ f.value).bind fun _ _ => .ok _

end Cql

end PortableQuery
