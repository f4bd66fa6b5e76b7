import PortableQuery.Form.Schema
import PortableQuery.Proofs.Form.Query

set_option autoImplicit false

/-!
# The JSON form of declared types is read back

A declared type is written no deeper than the raw JSON that it was read from.

* **`FieldType.ofJson?_toJson`**, **`UserType.ofJson?_toJson`**: declared types are read back.
-/

namespace PortableQuery

open JsonForm

namespace FieldType

theorem read?_list {j : RawJson} {t : FieldType} (h : read? true j = some t) (inside : Bool) :
    read? inside (.object [⟨"type", .string "list"⟩, ⟨"element", j⟩]) = some (.list t) := by
  simp [read?, membersNamed, one?, formName?, h]

theorem read?_map {j : RawJson} {t : FieldType} (h : read? true j = some t) (inside : Bool) :
    read? inside (.object [⟨"type", .string "map"⟩, ⟨"value", j⟩]) = some (.map t) := by
  simp [read?, membersNamed, one?, formName?, h]

/-- A written type is read back, inside another type and as one of its own. -/
theorem read?_toJson (t : FieldType) (inside : Bool) : read? inside t.toJson.raw = some t := by
  induction t generalizing inside with
  | list element ih => exact read?_list (ih true) inside
  | map value ih => exact read?_map (ih true) inside
  | _ => rfl

/-- **Types are read back.** -/
theorem ofJson?_toJson (t : FieldType) : ofJson? t.toJson = some t := by
  rw [ofJson?, ofRaw?, Json.isRepresentable_raw, if_pos rfl, read?_toJson]

end FieldType

namespace UserType

theorem fieldOfRaw?_toJson (f : Named FieldType) :
    fieldOfRaw? (Json.array [.string f.name, f.value.toJson]).raw = some f := by
  have hread : fieldOfRaw? (Json.array [.string f.name, f.value.toJson]).raw =
      (FieldType.ofJson? f.value.toJson).map (Named.mk f.name) := rfl
  rw [hread, FieldType.ofJson?_toJson]
  rfl

/-- **User-defined types are read back.** -/
theorem ofJson?_toJson (t : UserType) : ofJson? t.toJson = some t := by
  have hfields : items? fieldOfRaw?
      (Json.array (t.fields.map fun f => .array [.string f.name, f.value.toJson])).raw =
        some t.fields := items?_map fieldOfRaw?_toJson t.fields
  have hrecord : record? ["name", "fields"] 2 t.toJson.raw = some [some (.string t.name),
      some (Json.array (t.fields.map fun f => .array [.string f.name, f.value.toJson])).raw] := rfl
  rw [ofJson?, ofRaw?]
  simp only [hrecord, Option.bind_eq_bind, Option.bind_some, hfields]
  rfl

end UserType

/-! ## Types that were read -/

namespace FieldType

theorem yieldsOnly_simple? (name : String) :
    YieldsOnly (fun t => t.toJson.raw.depth ≤ 1) (simple? name) := by
  unfold simple?
  split
  all_goals first
    | exact .none
    | exact .some (Nat.le_refl 1)

theorem membersNamed_eq_map (name : String) (ms : List (Named RawJson)) :
    membersNamed name ms = (ms.filter (·.name == name)).map fun m => read? true m.value := by
  induction ms with
  | nil => rfl
  | cons m ms ih =>
    rw [membersNamed, ih]
    by_cases hname : m.name = name <;> simp [hname]

theorem depth_pair_le {tag name : String} {j : Json} {d : Nat} (h : j.raw.depth ≤ d) :
    (Json.object [⟨"type", .string tag⟩, ⟨name, j⟩]).raw.depth ≤ d + 1 := by
  rw [Json.raw, Json.rawMembers_eq_map, RawJson.depth_object_le]
  simp [h, Json.raw, RawJson.depth]

theorem yieldsOnly_read? {j : RawJson} {d : Nat} (h : j.Within d) (inside : Bool) :
    YieldsOnly (fun t => t.toJson.raw.depth ≤ d) (read? inside j) := by
  induction j using RawJson.induct generalizing d inside with
  | scalar j harray hobject =>
    cases j with
    | array items => exact absurd rfl (harray items)
    | object members => exact absurd rfl (hobject members)
    | _ => exact .none
  | array items ih =>
    obtain ⟨d, rfl, hparts⟩ := h.array
    rw [read?.eq_def]
    split
    · next heq => cases heq
    · exact YieldsOnly.bind (.any _) fun name _ t ht =>
        (yieldsOnly_simple? name t ht).trans (by omega)
    · next tag data heq =>
      cases heq
      have hdata := ih data (by simp) (hparts data (by simp)) true
      split
      · exact hdata.map fun t ht => depth_pair_le ht
      · exact hdata.map fun t ht => depth_pair_le ht
      · exact (YieldsOnly.any _).map fun name _ => depth_pair_le (Nat.zero_le d)
      · exact .none
    · exact .none
  | object members ih =>
    obtain ⟨d, rfl, hparts⟩ := h.object
    have hmember {name : String} {t : FieldType} (ht : membersNamed name members = [some t]) :
        t.toJson.raw.depth ≤ d := by
      have hmem : some t ∈ membersNamed name members := by simp [ht]
      rw [membersNamed_eq_map] at hmem
      obtain ⟨m, hm, hread⟩ := List.mem_map.mp hmem
      have hm := List.mem_of_mem_filter hm
      exact ih m hm (hparts m hm) true t hread
    rw [read?.eq_def]
    dsimp only
    split
    · split
      · next ht => exact .some (depth_pair_le (hmember ht))
      · exact .none
    · split
      · next ht => exact .some (depth_pair_le (hmember ht))
      · exact .none
    · split
      · exact .some (depth_pair_le (Nat.zero_le d))
      · exact .none
    · next name _ _ _ _ => exact fun t ht => (yieldsOnly_simple? name t ht).trans (by omega)
    · exact .none

/-- **A declared type is written no deeper than it was read.** -/
theorem yieldsOnly_ofRaw? {j : RawJson} {d : Nat} (h : j.Within d) :
    YieldsOnly (fun t => t.toJson.raw.depth ≤ d) (ofRaw? j) := by
  unfold ofRaw?
  split
  · exact yieldsOnly_read? h false
  · exact .none

end FieldType

namespace UserType

theorem yieldsOnly_fieldOfRaw? {j : RawJson} {d : Nat} (h : j.Within d) :
    YieldsOnly (fun f => (Json.array [.string f.name, f.value.toJson]).raw.depth ≤ d)
      (fieldOfRaw? j) := by
  unfold fieldOfRaw?
  split
  · next name type =>
    obtain ⟨d, rfl, hparts⟩ := h.array
    refine (FieldType.yieldsOnly_ofRaw? (hparts type (by simp))).map fun t ht => ?_
    rw [Json.raw, Json.rawItems_eq_map, RawJson.depth_array_le]
    simp [ht, Json.raw, RawJson.depth]
  · exact .none

/-- **A user-defined type is written no deeper than it was read.** -/
theorem yieldsOnly_ofRaw? {j : RawJson} {d : Nat} (h : j.Within d) :
    YieldsOnly (fun t => t.toJson.raw.depth ≤ d) (ofRaw? j) := by
  unfold ofRaw?
  refine (yieldsOnly_record? _ _ h).bind fun fields hfields => ?_
  obtain ⟨d, rfl, hfields⟩ := hfields
  split
  · next name k =>
    have hk : k.Within d := hfields (some k) (by simp) k rfl
    cases k with
    | array items =>
      obtain ⟨d, rfl, hparts⟩ := hk.array
      refine YieldsOnly.bind (.mapM fun j hj => yieldsOnly_fieldOfRaw? (hparts j hj))
        fun fs hfs => .some ?_
      have hwritten := Value.depth_array_map_le.mpr hfs
      rw [toJson, Json.raw, Json.rawMembers_eq_map, RawJson.depth_object_le]
      simpa [Json.raw, RawJson.depth] using hwritten
    | _ => exact .none
  · exact .none

end UserType

end PortableQuery
