import PortableQuery.Value

set_option autoImplicit false

/-!
# Induction on values

Values hold values in lists, in the entries of maps and in the fields of user-defined values.
-/

namespace PortableQuery.Value

@[elab_as_elim]
theorem induct {motive : Value → Prop} (scalar : ∀ v, v.isScalar = true → motive v)
    (list : ∀ items, (∀ v ∈ items, motive v) → motive (.list items))
    (map : ∀ entries, (∀ e ∈ entries, motive e.value) → motive (.map entries))
    (udt : ∀ type fields, (∀ e ∈ fields, motive e.value) → motive (.udt type fields))
    (v : Value) : motive v := by
  refine @Value.rec motive (fun vs => ∀ v ∈ vs, motive v) (fun es => ∀ e ∈ es, motive e.value)
    (fun e => motive e.value) ?_ ?_ ?_ ?_ ?_ ?_ ?_ ?_ ?_ ?_ list map udt ?_ ?_ ?_ ?_ ?_ v
  case refine_11 => exact List.forall_mem_nil _
  case refine_12 => exact fun _ _ hv hvs => List.forall_mem_cons.mpr ⟨hv, hvs⟩
  case refine_13 => exact List.forall_mem_nil _
  case refine_14 => exact fun _ _ he hes => List.forall_mem_cons.mpr ⟨he, hes⟩
  case refine_15 => exact fun _ _ h => h
  all_goals
    intros
    exact scalar _ rfl

/-- The first value is the second one or occurs in it. -/
inductive Within : Value → Value → Prop
  | self (v : Value) : Within v v
  | item {w v : Value} {items : List Value} (hv : v ∈ items) (h : Within w v) :
    Within w (.list items)
  | entry {w : Value} {e : Named Value} {entries : List (Named Value)} (he : e ∈ entries)
    (h : Within w e.value) : Within w (.map entries)
  | field {w : Value} {e : Named Value} {type : String} {fields : List (Named Value)}
    (he : e ∈ fields) (h : Within w e.value) : Within w (.udt type fields)

/-- Every value within `v` has the property. -/
def Everywhere (P : Value → Prop) (v : Value) : Prop := ∀ w, Within w v → P w

section Everywhere

variable {P : Value → Prop} {v : Value}

theorem Everywhere.self (h : v.Everywhere P) : P v := h v (.self v)

theorem everywhere_of_isScalar (hv : v.isScalar = true) : v.Everywhere P ↔ P v := by
  refine ⟨Everywhere.self, fun h w hw => ?_⟩
  cases hw with
  | self => exact h
  | item | entry | field => cases hv

theorem everywhere_list {items : List Value} :
    Everywhere P (.list items) ↔ P (.list items) ∧ ∀ v ∈ items, v.Everywhere P := by
  refine ⟨fun h => ⟨h.self, fun v hv w hw => h w (.item hv hw)⟩, fun h w hw => ?_⟩
  cases hw with
  | self => exact h.1
  | item hv hw => exact h.2 _ hv _ hw

theorem everywhere_map {entries : List (Named Value)} :
    Everywhere P (.map entries) ↔ P (.map entries) ∧ ∀ e ∈ entries, e.value.Everywhere P := by
  refine ⟨fun h => ⟨h.self, fun e he w hw => h w (.entry he hw)⟩, fun h w hw => ?_⟩
  cases hw with
  | self => exact h.1
  | entry he hw => exact h.2 _ he _ hw

theorem everywhere_udt {type : String} {fields : List (Named Value)} :
    Everywhere P (.udt type fields) ↔
      P (.udt type fields) ∧ ∀ e ∈ fields, e.value.Everywhere P := by
  refine ⟨fun h => ⟨h.self, fun e he w hw => h w (.field he hw)⟩, fun h w hw => ?_⟩
  cases hw with
  | self => exact h.1
  | field he hw => exact h.2 _ he _ hw

end Everywhere

/-! ## Values with other scalars -/

mutual

/-- The value with each scalar in it replaced by what `f` makes of it. -/
def mapScalars (f : Value → Value) : Value → Value
  | .list items => .list (mapItems f items)
  | .map entries => .map (mapEntries f entries)
  | .udt type fields => .udt type (mapEntries f fields)
  | v => f v
termination_by structural v => v

/-- The items, the scalars in them replaced. -/
def mapItems (f : Value → Value) : List Value → List Value
  | [] => []
  | v :: vs => mapScalars f v :: mapItems f vs
termination_by structural vs => vs

/-- The entries, the scalars in them replaced. -/
def mapEntries (f : Value → Value) : List (Named Value) → List (Named Value)
  | [] => []
  | ⟨name, v⟩ :: es => ⟨name, mapScalars f v⟩ :: mapEntries f es
termination_by structural es => es

end

section MapScalars

variable {f g : Value → Value} {v : Value}

theorem mapItems_eq_map (f : Value → Value) (vs : List Value) :
    mapItems f vs = vs.map (mapScalars f) := by
  induction vs with
  | nil => rfl
  | cons v vs ih => rw [mapItems, ih, List.map_cons]

theorem mapEntries_eq_map (f : Value → Value) (es : List (Named Value)) :
    mapEntries f es = es.map fun e => ⟨e.name, e.value.mapScalars f⟩ := by
  induction es with
  | nil => rfl
  | cons e es ih => rw [mapEntries, ih, List.map_cons]

theorem mapScalars_of_isScalar (hv : v.isScalar = true) : v.mapScalars f = f v := by
  cases v with
  | list | map | udt => cases hv
  | _ => rfl

theorem mapScalars_list (items : List Value) :
    mapScalars f (.list items) = .list (items.map (mapScalars f)) := by
  rw [mapScalars, mapItems_eq_map]

theorem mapScalars_map (entries : List (Named Value)) : mapScalars f (.map entries) =
    .map (entries.map fun e => ⟨e.name, e.value.mapScalars f⟩) := by
  rw [mapScalars, mapEntries_eq_map]

theorem mapScalars_udt (type : String) (fields : List (Named Value)) :
    mapScalars f (.udt type fields) =
      .udt type (fields.map fun e => ⟨e.name, e.value.mapScalars f⟩) := by
  rw [mapScalars, mapEntries_eq_map]

theorem map_eq_self_iff {α : Type} {g : α → α} {xs : List α} :
    xs.map g = xs ↔ ∀ x ∈ xs, g x = x := by
  induction xs with
  | nil => simp
  | cons x xs ih => rw [List.map_cons, List.cons.injEq, ih, List.forall_mem_cons]

theorem mapEntries_eq_self_iff {es : List (Named Value)} :
    es.map (fun e => ⟨e.name, e.value.mapScalars f⟩) = es ↔
      ∀ e ∈ es, e.value.mapScalars f = e.value := by
  rw [map_eq_self_iff]
  exact forall₂_congr fun e _ => ⟨congrArg Named.value, congrArg (Named.mk e.name)⟩

theorem mapScalars_eq_self :
    v.mapScalars f = v ↔ v.Everywhere fun w => w.isScalar = true → f w = w := by
  induction v using Value.induct with
  | scalar v hv => rw [mapScalars_of_isScalar hv, everywhere_of_isScalar hv, forall_prop_of_true hv]
  | list items ih =>
    rw [mapScalars_list, everywhere_list, and_iff_right (by nofun), list.injEq, map_eq_self_iff]
    exact forall₂_congr ih
  | map entries ih =>
    rw [mapScalars_map, everywhere_map, and_iff_right (by nofun), map.injEq, mapEntries_eq_self_iff]
    exact forall₂_congr ih
  | udt type fields ih =>
    rw [mapScalars_udt, everywhere_udt, and_iff_right (by nofun), udt.injEq, and_iff_right rfl,
      mapEntries_eq_self_iff]
    exact forall₂_congr ih

theorem everywhere_mapScalars {P : Value → Prop} (hP : ∀ w, w.isScalar = false → P w)
    (hf : ∀ w, w.isScalar = true → (f w).isScalar = true)
    (h : v.Everywhere fun w => w.isScalar = true → P (f w)) : (v.mapScalars f).Everywhere P := by
  induction v using Value.induct with
  | scalar v hv =>
    rw [mapScalars_of_isScalar hv, everywhere_of_isScalar (hf v hv)]
    exact h.self hv
  | list items ih =>
    rw [mapScalars_list, everywhere_list, List.forall_mem_map]
    exact ⟨hP _ rfl, fun v hv => ih v hv ((everywhere_list.mp h).2 v hv)⟩
  | map entries ih =>
    rw [mapScalars_map, everywhere_map, List.forall_mem_map]
    exact ⟨hP _ rfl, fun e he => ih e he ((everywhere_map.mp h).2 e he)⟩
  | udt type fields ih =>
    rw [mapScalars_udt, everywhere_udt, List.forall_mem_map]
    exact ⟨hP _ rfl, fun e he => ih e he ((everywhere_udt.mp h).2 e he)⟩

end MapScalars

end PortableQuery.Value
