import PortableQuery.Proofs.Form.Schema

set_option autoImplicit false

/-!
# Integers of forms

What is written has integers of 64 bits only, signed or unsigned, so it is within the bounds of
documents wherever it is not too deep.
-/

namespace PortableQuery

open JsonForm

theorem bounded_single {name : String} {j : Json} (h : j.raw.Bounded) :
    (Json.single name j).raw.Bounded := by
  rw [Json.single, Json.raw, Json.rawMembers_eq_map]
  exact .object (List.forall_mem_singleton.mpr h)

theorem bounded_array_map {α : Type} {f : α → Json} {xs : List α}
    (h : ∀ x ∈ xs, (f x).raw.Bounded) : (Json.array (xs.map f)).raw.Bounded := by
  rw [Json.raw, Json.rawItems_eq_map, List.map_map]
  exact .array (List.forall_mem_map.mpr h)

theorem bounded_object {members : List (Named Json)} (h : ∀ m ∈ members, m.value.raw.Bounded) :
    (Json.object members).raw.Bounded := by
  rw [Json.raw, Json.rawMembers_eq_map]
  exact .object (List.forall_mem_map.mpr h)

theorem bounded_natCast {n bound : Nat} (h : n < bound) (hbound : bound ≤ 2 ^ 64) :
    (Json.int n).raw.Bounded :=
  .int (by omega) (by omega)

theorem bounded_ofBytes (bytes : List UInt8) : (ofBytes bytes).raw.Bounded :=
  bounded_array_map fun b _ => bounded_natCast b.toNat_lt (by decide)

namespace Value

theorem bounded_element {e : Named Value} (h : e.value.toJson.raw.Bounded) :
    (Element.toJson e).raw.Bounded :=
  bounded_object (List.forall_mem_cons.mpr ⟨.string _, List.forall_mem_singleton.mpr h⟩)

theorem bounded_toJson (v : Value) : v.toJson.raw.Bounded := by
  induction v using Value.induct with
  | scalar v hv =>
    cases v with
    | list | map | udt => cases hv
    | null => exact .string _
    | bool b => exact bounded_single (.bool b)
    | int i => exact bounded_single (.int i.le_toInt (i.toInt_lt.trans (by decide)))
    | double d =>
      cases d with
      | finite x => exact bounded_single (.double x)
      | nan | infinite => exact bounded_single .null
    | bytes bytes => exact bounded_single (bounded_ofBytes bytes)
    | _ => exact bounded_single (.string _)
  | list items ih =>
    rw [toJson, itemsToJson_eq_map]
    exact bounded_single (bounded_array_map ih)
  | map entries ih =>
    rw [toJson, elementsToJson_eq_map]
    exact bounded_single (bounded_array_map fun e he => bounded_element (ih e he))
  | udt type fields ih =>
    rw [toJson, elementsToJson_eq_map]
    refine bounded_single (bounded_object (List.forall_mem_cons.mpr ⟨.string type, ?_⟩))
    exact List.forall_mem_singleton.mpr
      (bounded_array_map fun e he => bounded_element (ih e he))

end Value

theorem Condition.bounded_toJson (c : Condition) : c.toJson.raw.Bounded := by
  induction c using Condition.induct with
  | predicate o e =>
    refine bounded_single (bounded_object (List.forall_mem_cons.mpr ⟨.string _, ?_⟩))
    exact List.forall_mem_singleton.mpr (Value.bounded_element e.value.bounded_toJson)
  | join c cs ih =>
    cases c
    all_goals
      rw [toJson, childrenToJson_eq_map]
      exact bounded_single (bounded_array_map ih)
  | not c ih => exact bounded_single ih

theorem Query.bounded_toJson (q : Query) : q.toJson.raw.Bounded := by
  refine bounded_object fun m hm => ?_
  simp only [List.mem_append, List.mem_cons, List.not_mem_nil, or_false, Option.mem_toList,
    Option.map_eq_some_iff] at hm
  rcases hm with ((rfl | ⟨c, -, rfl⟩) | rfl | rfl | rfl | rfl) | ⟨t, -, rfl⟩
  · exact .string _
  · exact c.bounded_toJson
  · exact bounded_array_map fun _ _ => .string _
  · refine bounded_array_map fun s _ => bounded_object ?_
    exact List.forall_mem_cons.mpr ⟨.string _, List.forall_mem_singleton.mpr (.string _)⟩
  · exact bounded_natCast q.limit.toNat_lt le_rfl
  · exact bounded_natCast q.skip.toNat_lt le_rfl
  · exact bounded_ofBytes t.bytes

theorem FieldType.bounded_toJson (t : FieldType) : t.toJson.raw.Bounded := by
  have hpair {name : String} {j : Json} (h : j.raw.Bounded) (tag : String) :
      (Json.object [⟨"type", .string tag⟩, ⟨name, j⟩]).raw.Bounded :=
    bounded_object (List.forall_mem_cons.mpr ⟨.string _, List.forall_mem_singleton.mpr h⟩)
  induction t with
  | list element ih => exact hpair ih "list"
  | map value ih => exact hpair ih "map"
  | udt name => exact hpair (j := .string name) (.string name) "udt"
  | _ => exact bounded_single (.string _)

theorem UserType.bounded_toJson (t : UserType) : t.toJson.raw.Bounded := by
  refine bounded_object (List.forall_mem_cons.mpr ⟨.string _, List.forall_mem_singleton.mpr ?_⟩)
  refine bounded_array_map fun f _ => ?_
  rw [Json.raw, Json.rawItems_eq_map]
  exact .array (by simp [f.value.bounded_toJson, Json.raw, RawJson.Bounded.string])

theorem CompilerConfig.bounded_toJson (c : CompilerConfig) : c.toJson.raw.Bounded := by
  refine bounded_object ?_
  simp only [List.forall_mem_cons]
  exact ⟨.string _, .bool _, bounded_natCast c.maxResultWindow.toNat_lt le_rfl, nofun⟩

end PortableQuery
