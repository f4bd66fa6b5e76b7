import PortableQuery.Proofs.Json.Plain

set_option autoImplicit false

/-!
# Values that have a plain form

A value has a plain form unless it holds a user-defined value, a double that is not finite or a map
with a repeated key, at whatever depth.
-/

namespace PortableQuery.Value

/-- The value is no user-defined one, no double without digits and no map with a repeated key. -/
def Renderable : Value → Prop
  | .double (.finite _) => True
  | .double _ => False
  | .map entries => (Named.names entries).Nodup
  | .udt _ _ => False
  | _ => True

/-- A plain form of an entry: the form of its value under its key. -/
def PlainEntry (scope : Scope) (e : Named Value) (m : Named Json) : Prop :=
  m.name = e.name ∧ e.value.toPlain (scope.nested e.name) = .ok m.value

variable {scope : Scope}

theorem entriesToPlain_cons_eq_ok {seen : List String} {e : Named Value} {es : List (Named Value)}
    {ms : List (Named Json)} : entriesToPlain scope seen (e :: es) = .ok ms ↔
      e.name ∉ seen ∧ ∃ m ns, PlainEntry scope e m ∧
        entriesToPlain scope (e.name :: seen) es = .ok ns ∧ ms = m :: ns := by
  rw [entriesToPlain, bind_eq_ok]
  constructor
  · rintro ⟨j, hj, h⟩
    split at h
    · cases h
    · next hseen =>
      obtain ⟨ns, hns, h⟩ := bind_eq_ok.mp h
      exact ⟨hseen, ⟨e.name, j⟩, ns, ⟨rfl, hj⟩, hns, (pure_eq_ok.mp h).symm⟩
  · rintro ⟨hseen, ⟨name, j⟩, ns, ⟨rfl, hj⟩, hns, rfl⟩
    refine ⟨j, hj, ?_⟩
    rw [if_neg hseen]
    exact bind_eq_ok.mpr ⟨ns, hns, rfl⟩

/-- **Entries have a form if no key is repeated and every value has a form.** -/
theorem entriesToPlain_eq_ok {seen : List String} {es : List (Named Value)}
    {ms : List (Named Json)} : entriesToPlain scope seen es = .ok ms ↔
      (Named.names es).Nodup ∧ (∀ e ∈ es, e.name ∉ seen) ∧
        List.Forall₂ (PlainEntry scope) es ms := by
  induction es generalizing seen ms with
  | nil =>
    rw [List.forall₂_nil_left_iff]
    constructor
    · intro h
      cases h
      exact ⟨.nil, List.forall_mem_nil _, rfl⟩
    · rintro ⟨-, -, rfl⟩
      rfl
  | cons e es ih =>
    rw [entriesToPlain_cons_eq_ok, List.forall₂_cons_left_iff, ← and_assoc,
      Named.nodup_and_unseen_cons]
    constructor
    · rintro ⟨hseen, m, ns, hm, hns, rfl⟩
      obtain ⟨hnodup, hfresh, hforms⟩ := ih.mp hns
      exact ⟨⟨hseen, hnodup, hfresh⟩, m, ns, hm, hforms, rfl⟩
    · rintro ⟨⟨hseen, hnodup, hfresh⟩, m, ns, hm, hforms, rfl⟩
      exact ⟨hseen, m, ns, hm, ih.mpr ⟨hnodup, hfresh, hforms⟩, rfl⟩

theorem exists_itemsToPlain_iff {vs : List Value} :
    (∃ js, itemsToPlain scope vs = .ok js) ↔ ∀ v ∈ vs, ∃ j, v.toPlain scope = .ok j := by
  simp only [itemsToPlain_eq_ok, exists_forall₂_iff]

theorem exists_entriesToPlain_iff {es : List (Named Value)} :
    (∃ ms, entriesToPlain scope [] es = .ok ms) ↔ (Named.names es).Nodup ∧
      ∀ e ∈ es, ∃ j, e.value.toPlain (scope.nested e.name) = .ok j := by
  have hform (e : Named Value) :
      (∃ m, PlainEntry scope e m) ↔ ∃ j, e.value.toPlain (scope.nested e.name) = .ok j :=
    ⟨fun ⟨m, hm⟩ => ⟨m.value, hm.2⟩, fun ⟨j, hj⟩ => ⟨⟨e.name, j⟩, rfl, hj⟩⟩
  simp only [entriesToPlain_eq_ok, exists_and_left, exists_forall₂_iff, hform, List.not_mem_nil,
    not_false_eq_true, implies_true, true_and]

/-- **The values that have a plain form.** -/
theorem exists_toPlain_iff (scope : Scope) (v : Value) :
    (∃ j, v.toPlain scope = .ok j) ↔ v.Everywhere Renderable := by
  induction v using Value.induct generalizing scope with
  | scalar v hv =>
    rw [everywhere_of_isScalar hv]
    cases v with
    | list | map | udt => cases hv
    | double d =>
      cases d with
      | finite x => exact iff_of_true ⟨_, rfl⟩ trivial
      | nan | infinite => exact iff_of_false (by simp [toPlain]) id
    | _ => exact iff_of_true ⟨_, rfl⟩ trivial
  | list items ih =>
    have hlist : (∃ j, (list items).toPlain scope = .ok j) ↔
        ∃ js, itemsToPlain scope items = .ok js := by
      rw [toPlain, bind_pure_comp]
      exact exists_map_eq_ok
    rw [everywhere_list, hlist, exists_itemsToPlain_iff]
    exact ⟨fun h => ⟨trivial, fun v hv => (ih v hv scope).mp (h v hv)⟩,
      fun h v hv => (ih v hv scope).mpr (h.2 v hv)⟩
  | map entries ih =>
    have hmap : (∃ j, (map entries).toPlain scope = .ok j) ↔
        ∃ ms, entriesToPlain scope [] entries = .ok ms := by
      rw [toPlain, bind_pure_comp]
      exact exists_map_eq_ok
    rw [everywhere_map, hmap, exists_entriesToPlain_iff]
    exact and_congr_right fun _ => forall₂_congr fun e he => ih e he _
  | udt type fields =>
    rw [everywhere_udt]
    exact iff_of_false (by simp [toPlain]) fun h => h.1

end PortableQuery.Value
