import Mathlib.Data.List.Forall2
import PortableQuery.Json.Plain
import PortableQuery.Proofs.Lowering.Failure
import PortableQuery.Proofs.Value

set_option autoImplicit false

/-!
# Plain forms

The field that a value is converted for is named in errors only, so a value has one plain form.

* **`Value.toPlain_of_scope`**: the plain form does not depend on the field;
* **`Value.errsOnly_toPlain`**: a value without a plain form is reported as such.
-/

namespace PortableQuery.Value

/-- The value has the same plain form for every field. -/
def PlainEverywhere (v : Value) : Prop :=
  ∀ scope scope' j, v.toPlain scope = .ok j → v.toPlain scope' = .ok j

theorem itemsToPlain_eq_ok {scope : Scope} {vs : List Value} {js : List Json} :
    itemsToPlain scope vs = .ok js ↔ List.Forall₂ (fun v j => v.toPlain scope = .ok j) vs js := by
  rw [← mapM_eq_ok]
  suffices h : itemsToPlain scope vs = vs.mapM (toPlain scope) by rw [h]
  induction vs with
  | nil => rfl
  | cons v vs ih => rw [itemsToPlain, List.mapM_cons, ih]

theorem itemsToPlain_of_scope {scope scope' : Scope} {vs : List Value} {js : List Json}
    (hvs : ∀ v ∈ vs, PlainEverywhere v) (h : itemsToPlain scope vs = .ok js) :
    itemsToPlain scope' vs = .ok js := by
  rw [itemsToPlain_eq_ok] at h ⊢
  exact forall₂_imp_of_mem (fun v hv j hj => hvs v hv scope scope' j hj) h

theorem entriesToPlain_of_scope {scope scope' : Scope} {seen : List String}
    {es : List (Named Value)} {ms : List (Named Json)} (hes : ∀ e ∈ es, PlainEverywhere e.value)
    (h : entriesToPlain scope seen es = .ok ms) : entriesToPlain scope' seen es = .ok ms := by
  induction es generalizing seen ms with
  | nil => exact h
  | cons e es ih =>
    simp only [entriesToPlain] at h ⊢
    obtain ⟨j, hj, h⟩ := bind_eq_ok.mp h
    refine bind_eq_ok.mpr ⟨j, hes e (by simp) _ _ _ hj, ?_⟩
    split at h
    · cases h
    · next hseen =>
      rw [if_neg hseen]
      obtain ⟨ns, hns, h⟩ := bind_eq_ok.mp h
      exact bind_eq_ok.mpr ⟨ns, ih (fun e he => hes e (List.mem_cons_of_mem _ he)) hns, h⟩

/-- **The plain form does not depend on the field.** -/
theorem toPlain_of_scope (v : Value) : PlainEverywhere v := by
  induction v using Value.induct with
  | scalar v hv =>
    intro scope scope' j h
    match v, hv with
    | .null, _ | .bool _, _ | .int _, _ | .decimal _, _ | .text _, _ | .bytes _, _ | .uuid _, _
    | .timestamp _, _ | .date _, _ | .double (.finite _), _ => exact h
    | .double .nan, _ | .double (.infinite _), _ => cases h
  | list items ih =>
    intro scope scope' j h
    obtain ⟨js, hjs, h⟩ := bind_eq_ok.mp h
    exact bind_eq_ok.mpr ⟨js, itemsToPlain_of_scope ih hjs, h⟩
  | map entries ih =>
    intro scope scope' j h
    obtain ⟨ms, hms, h⟩ := bind_eq_ok.mp h
    exact bind_eq_ok.mpr ⟨ms, entriesToPlain_of_scope ih hms, h⟩
  | udt type fields => nofun

/-- The plain form of a value, if there is one. -/
def plain? (v : Value) : Option Json := (v.toPlain ⟨"", ""⟩).toOption

theorem plain?_eq_some {scope : Scope} {v : Value} {j : Json} (h : v.toPlain scope = .ok j) :
    v.plain? = some j := by
  rw [plain?, toPlain_of_scope v scope _ j h]
  rfl

theorem toPlain_eq_ok_iff (scope : Scope) {v : Value} {j : Json} :
    v.toPlain scope = .ok j ↔ v.plain? = some j := by
  refine ⟨plain?_eq_some, fun h => ?_⟩
  rw [plain?] at h
  cases hv : v.toPlain ⟨"", ""⟩ with
  | error e =>
    rw [hv] at h
    cases h
  | ok j' =>
    rw [hv] at h
    obtain rfl : j' = j := Option.some.inj h
    exact toPlain_of_scope v _ _ _ hv

theorem plain?_list_eq_some {vs : List Value} {j : Json} :
    (list vs).plain? = some j ↔
      ∃ js, List.Forall₂ (fun v j => v.plain? = some j) vs js ∧ j = .array js := by
  rw [← toPlain_eq_ok_iff ⟨"", ""⟩, toPlain, bind_eq_ok]
  simp only [itemsToPlain_eq_ok, toPlain_eq_ok_iff, pure_eq_ok, eq_comm (a := j)]

theorem plain?_list {scope : Scope} {vs : List Value} {js : List Json}
    (h : List.Forall₂ (fun v j => v.toPlain scope = .ok j) vs js) :
    (list vs).plain? = some (.array js) :=
  plain?_eq_some (bind_eq_ok.mpr ⟨js, itemsToPlain_eq_ok.mpr h, rfl⟩)

/-! ## Errors -/

theorem errsOnly_itemsToPlain {P : QueryError → Prop} {scope : Scope} {vs : List Value}
    (hvs : ∀ v ∈ vs, ErrsOnly P (v.toPlain scope)) : ErrsOnly P (itemsToPlain scope vs) := by
  induction vs with
  | nil => exact .ok _
  | cons v vs ih =>
    rw [List.forall_mem_cons] at hvs
    exact hvs.1.bind fun _ _ => (ih hvs.2).bind fun _ _ => .ok _

theorem errsOnly_entriesToPlain {P : QueryError → Prop} {scope : Scope} {es : List (Named Value)}
    (hkey : ∀ key, P (scope.error (.duplicateMapKey key)))
    (hes : ∀ e ∈ es, ErrsOnly P (e.value.toPlain (scope.nested e.name))) (seen : List String) :
    ErrsOnly P (entriesToPlain scope seen es) := by
  induction es generalizing seen with
  | nil => exact .ok _
  | cons e es ih =>
    rw [List.forall_mem_cons] at hes
    refine hes.1.bind fun j _ => ?_
    split
    · exact .error (hkey e.name)
    · exact (ih hes.2 _).bind fun _ _ => .ok _

/-- **Every error is one of conversion, at some field of the entity.** -/
theorem errsOnly_toPlain (scope : Scope) (v : Value) :
    ErrsOnly (·.IsConversion scope.entity) (v.toPlain scope) := by
  induction v using Value.induct generalizing scope with
  | scalar v hv =>
    match v, hv with
    | .null, _ | .bool _, _ | .int _, _ | .decimal _, _ | .text _, _ | .bytes _, _ | .uuid _, _
    | .timestamp _, _ | .date _, _ | .double (.finite _), _ => exact .ok _
    | .double .nan, _ | .double (.infinite _), _ => exact .error (scope.isConversion_error _)
  | list items ih =>
    exact (errsOnly_itemsToPlain fun v hv => ih v hv scope).bind fun _ _ => .ok _
  | map entries ih =>
    exact (errsOnly_entriesToPlain (fun _ => scope.isConversion_error _)
      (fun e he => ih e he (scope.nested e.name)) []).bind fun _ _ => .ok _
  | udt type fields => exact .error (scope.isConversion_error _)

end PortableQuery.Value
