import PortableQuery.Proofs.Calendar.Leap
import PortableQuery.Proofs.Form.Value
import PortableQuery.Proofs.Number.Rounding

set_option autoImplicit false

/-!
# Values that were read

A document has no double that is not finite, and its integers have a nearest one; a leap second is
read as the end of a minute; and a value is written no deeper than the raw JSON that it was read
from.
-/

namespace PortableQuery

open JsonForm

@[elab_as_elim]
theorem RawJson.induct {motive : RawJson → Prop}
    (scalar : ∀ j, (∀ items, j ≠ .array items) → (∀ members, j ≠ .object members) → motive j)
    (array : ∀ items, (∀ j ∈ items, motive j) → motive (.array items))
    (object : ∀ members, (∀ m ∈ members, motive m.value) → motive (.object members))
    (j : RawJson) : motive j := by
  refine @RawJson.rec motive (fun js => ∀ j ∈ js, motive j) (fun ms => ∀ m ∈ ms, motive m.value)
    (fun m => motive m.value) ?_ ?_ ?_ ?_ ?_ array object ?_ ?_ ?_ ?_ ?_ ?_ j
  case refine_7 => exact List.forall_mem_nil _
  case refine_8 => exact fun _ _ hj hjs => List.forall_mem_cons.mpr ⟨hj, hjs⟩
  case refine_9 => exact List.forall_mem_nil _
  case refine_10 => exact fun _ _ hm hms => List.forall_mem_cons.mpr ⟨hm, hms⟩
  case refine_11 => exact fun _ _ h => h
  all_goals
    intros
    exact scalar _ nofun nofun

namespace Value

/-- Every double in the value is finite. -/
abbrev FiniteDoubles (v : Value) : Prop := v.Everywhere HasFiniteDouble

/-- What is known of a value that was read from raw JSON of this depth. -/
structure IsReading (d : Nat) (v : Value) : Prop where
  finite : v.FiniteDoubles
  plainSeconds : v.Everywhere HasPlainSecond
  depth_le : v.toJson.raw.depth ≤ d

theorem depth_single_le {name : String} {j : Json} {d : Nat} :
    (Json.single name j).raw.depth ≤ d + 1 ↔ j.raw.depth ≤ d := by
  rw [Json.single, Json.raw, Json.rawMembers_eq_map, RawJson.depth_object_le]
  simp

theorem isReading_of_isScalar {v : Value} {d : Nat} (hv : v.isScalar = true)
    (hfinite : v.HasFiniteDouble) (hsecond : v.HasPlainSecond) (hdepth : v.toJson.raw.depth ≤ d) :
    v.IsReading d :=
  ⟨(everywhere_of_isScalar hv).mpr hfinite, (everywhere_of_isScalar hv).mpr hsecond, hdepth⟩

/-- A scalar that was read is no double without digits: integers of 64 bits have a nearest double. -/
theorem yieldsOnly_scalarOfRaw? (kind : String) {data : RawJson} (h : data.Bounded) (d : Nat) :
    YieldsOnly (IsReading (d + 1)) (scalarOfRaw? kind data) := by
  have hplain {v : Value} (hv : v.isScalar = true ∧ v.HasFiniteDouble ∧ v.HasPlainSecond ∧
      v.toJson.raw.depth ≤ 1) : v.IsReading (d + 1) :=
    isReading_of_isScalar hv.1 hv.2.1 hv.2.2.1 (by omega)
  have hmap {α : Type} (x : Option α) (f : α → Value)
      (hf : ∀ a, (f a).isScalar = true ∧ (f a).HasFiniteDouble ∧ (f a).HasPlainSecond ∧
        (f a).toJson.raw.depth ≤ 1) :
      YieldsOnly (IsReading (d + 1)) (x.map f) :=
    (YieldsOnly.any x).map fun a _ => hplain (hf a)
  have hone (j : Json) (name : String) (hj : j.raw.depth = 0) :
      (Json.single name j).raw.depth ≤ 1 := depth_single_le.mpr hj.le
  unfold scalarOfRaw?
  split
  · exact .some (hplain ⟨rfl, trivial, trivial, Nat.zero_le 1⟩)
  · exact .some (hplain ⟨rfl, trivial, trivial, hone _ _ rfl⟩)
  · split
    · exact .some (hplain ⟨rfl, trivial, trivial, hone _ _ rfl⟩)
    · exact .none
  · exact .some (hplain ⟨rfl, ⟨_, rfl⟩, trivial, hone _ _ rfl⟩)
  · cases h with
    | int low high =>
      obtain ⟨x, hx⟩ := Double.exists_ofInt low high
      exact .some (hplain ⟨rfl, ⟨x, hx⟩, trivial, hx ▸ hone _ _ rfl⟩)
  · exact hmap _ _ fun _ => ⟨rfl, trivial, trivial, hone _ _ rfl⟩
  · exact hmap _ _ fun _ => ⟨rfl, trivial, trivial, hone _ _ rfl⟩
  · exact hmap _ _ fun _ => ⟨rfl, trivial, trivial, hone _ _ rfl⟩
  · exact .some (hplain ⟨rfl, trivial, trivial, hone _ _ rfl⟩)
  · exact hmap _ _ fun _ => ⟨rfl, trivial, trivial, hone _ _ rfl⟩
  · next s =>
    intro v hv
    obtain ⟨t, ht, rfl⟩ := Option.map_eq_some_iff.mp hv
    have hends : t.EndsMinute := by
      cases hread : CalendarText.relaxedTimestamp s with
      | error e =>
        rw [hread] at ht
        cases ht
      | ok t' =>
        rw [hread] at ht
        obtain rfl := Option.some.inj ht
        exact CalendarText.endsMinute_of_relaxedTimestamp hread
    exact hplain ⟨rfl, trivial, hends, hone _ _ rfl⟩
  · exact hmap _ _ fun _ => ⟨rfl, trivial, trivial, hone _ _ rfl⟩
  · exact .none

/-- What is known of an element that was read. -/
def IsReadElement (d : Nat) (e : Named Value) : Prop :=
  e.value.IsReading d ∧ (Element.toJson e).raw.depth ≤ d

/-- Whatever part of a value the raw JSON is read as, this is known of it. -/
structure Reads (j : RawJson) : Prop where
  value {d : Nat} (h : j.Within d) : YieldsOnly (IsReading d) (ofRaw? j)
  data {d : Nat} (h : j.Within d) (kind : String) :
    YieldsOnly (IsReading (d + 1)) (dataOfRaw? kind j)
  element {d : Nat} (h : j.Within d) : YieldsOnly (IsReadElement d) (elementOfRaw? j)
  elements {d : Nat} (h : j.Within (d + 1)) {items : List RawJson} (hj : j = .array items) :
    YieldsOnly (∀ e ∈ ·, IsReadElement d e) (elementsOfRaw? items)

section Containers

variable {d : Nat}

theorem depth_array_map_le {α : Type} {f : α → Json} {xs : List α} :
    (Json.array (xs.map f)).raw.depth ≤ d + 1 ↔ ∀ x ∈ xs, (f x).raw.depth ≤ d := by
  rw [Json.raw, Json.rawItems_eq_map, RawJson.depth_array_le, List.map_map, List.forall_mem_map]
  rfl

theorem isReading_list {items : List Value} (h : ∀ v ∈ items, v.IsReading d) :
    IsReading (d + 2) (.list items) := by
  refine ⟨everywhere_list.mpr ⟨trivial, fun v hv => (h v hv).finite⟩,
    everywhere_list.mpr ⟨trivial, fun v hv => (h v hv).plainSeconds⟩, ?_⟩
  rw [toJson, itemsToJson_eq_map, depth_single_le, depth_array_map_le]
  exact fun v hv => (h v hv).depth_le

theorem isReading_map {entries : List (Named Value)} (h : ∀ e ∈ entries, IsReadElement d e) :
    IsReading (d + 2) (.map entries) := by
  refine ⟨everywhere_map.mpr ⟨trivial, fun e he => (h e he).1.finite⟩,
    everywhere_map.mpr ⟨trivial, fun e he => (h e he).1.plainSeconds⟩, ?_⟩
  rw [toJson, elementsToJson_eq_map, depth_single_le, depth_array_map_le]
  exact fun e he => (h e he).2

theorem isReading_udt {type : String} {fields : List (Named Value)}
    (h : ∀ e ∈ fields, IsReadElement d e) : IsReading (d + 3) (.udt type fields) := by
  refine ⟨everywhere_udt.mpr ⟨trivial, fun e he => (h e he).1.finite⟩,
    everywhere_udt.mpr ⟨trivial, fun e he => (h e he).1.plainSeconds⟩, ?_⟩
  have hfields : (Json.array (fields.map Element.toJson)).raw.depth ≤ d + 1 :=
    depth_array_map_le.mpr fun e he => (h e he).2
  rw [toJson, elementsToJson_eq_map, depth_single_le, Json.raw, Json.rawMembers_eq_map,
    RawJson.depth_object_le]
  simpa [Json.raw, RawJson.depth] using hfields

theorem isReading_bytes (bytes : List UInt8) : IsReading (d + 2) (.bytes bytes) := by
  refine isReading_of_isScalar rfl trivial trivial ?_
  rw [toJson, ofBytes, depth_single_le, depth_array_map_le]
  exact fun b _ => Nat.zero_le d

theorem isReadElement_of_isReading {name : String} {v : Value} (h : v.IsReading d) :
    IsReadElement (d + 1) ⟨name, v⟩ := by
  refine ⟨⟨h.finite, h.plainSeconds, h.depth_le.trans (Nat.le_succ d)⟩, ?_⟩
  rw [Element.toJson, Json.raw, Json.rawMembers_eq_map, RawJson.depth_object_le]
  simp [h.depth_le, Json.raw, RawJson.depth]

end Containers

theorem reads_array {items : List RawJson} (h : ∀ j ∈ items, Reads j) :
    Reads (.array items) := by
  have hitems {d : Nat} (hd : ∀ j ∈ items, j.Within d) :
      YieldsOnly (∀ v ∈ ·, IsReading d v) (itemsOfRaw? items) := by
    rw [itemsOfRaw?_eq_mapM]
    exact .mapM fun j hj => (h j hj).value (hd j hj)
  have helements {d : Nat} (hd : ∀ j ∈ items, j.Within d) :
      YieldsOnly (∀ e ∈ ·, IsReadElement d e) (elementsOfRaw? items) := by
    rw [elementsOfRaw?_eq_mapM]
    exact .mapM fun j hj => (h j hj).element (hd j hj)
  refine ⟨fun _ => .none, fun hd kind => ?_, fun hd => ?_, fun hd => ?_⟩
  · obtain ⟨d, rfl, hparts⟩ := hd.array
    rw [dataOfRaw?.eq_def]
    dsimp only
    split
    · exact (hitems hparts).map fun _ => isReading_list
    split
    · exact (helements hparts).map fun _ => isReading_map
    split
    · exact (YieldsOnly.any _).map fun bytes _ => isReading_bytes bytes
    split
    · split
      · next type fields =>
        have hfields := hparts (.array fields) (by simp)
        obtain ⟨d, rfl, -⟩ := hfields.array
        exact ((h (.array fields) (by simp)).elements hfields rfl).map fun _ => isReading_udt
      · exact .none
    · exact .none
  · obtain ⟨d, rfl, hparts⟩ := hd.array
    rw [elementOfRaw?.eq_def]
    split
    · next name value heq =>
      cases heq
      exact ((h value (by simp)).value (hparts value (by simp))).map fun _ =>
        isReadElement_of_isReading
    · next heq => cases heq
    · exact .none
  · obtain ⟨d', hd', hparts⟩ := hd.array
    obtain rfl := Nat.succ.inj hd'
    rintro _ ⟨⟩
    exact helements hparts

theorem valuesOfRaw?_eq_map (ms : List (Named RawJson)) :
    valuesOfRaw? ms = (ms.filter (·.name == "value")).map fun m => ofRaw? m.value := by
  induction ms with
  | nil => rfl
  | cons m ms ih =>
    rw [valuesOfRaw?, ih]
    by_cases hname : m.name = "value" <;> simp [hname]

theorem exists_of_mem_fieldsOfRaw? {ms : List (Named RawJson)} {fields : List (Named Value)}
    (h : some fields ∈ fieldsOfRaw? ms) :
    ∃ m ∈ ms, ∃ items, m.value = .array items ∧ elementsOfRaw? items = some fields := by
  induction ms with
  | nil => cases h
  | cons m ms ih =>
    have hrest (h : some fields ∈ fieldsOfRaw? ms) : ∃ m' ∈ m :: ms, ∃ items,
        m'.value = .array items ∧ elementsOfRaw? items = some fields := by
      obtain ⟨m', hm', h⟩ := ih h
      exact ⟨m', List.mem_cons_of_mem m hm', h⟩
    rw [fieldsOfRaw?.eq_def] at h
    split at h
    · cases h
    · next items _ heq =>
      cases heq
      split at h
      · rcases List.mem_cons.mp h with h | h
        · exact ⟨_, List.mem_cons_self, items, rfl, h.symm⟩
        · exact hrest h
      · exact hrest h
    · next heq =>
      cases heq
      split at h
      · rcases List.mem_cons.mp h with h | h
        · cases h
        · exact hrest h
      · exact hrest h

theorem reads_object {members : List (Named RawJson)} (h : ∀ m ∈ members, Reads m.value) :
    Reads (.object members) := by
  refine ⟨fun hd => ?_, fun hd kind => ?_, fun hd => ?_, nofun⟩
  · obtain ⟨d, rfl, hparts⟩ := hd.object
    rw [ofRaw?.eq_def]
    split
    · next heq => cases heq
    · next kind data heq =>
      cases heq
      exact (h ⟨kind, data⟩ (by simp)).data (hparts ⟨kind, data⟩ (by simp)) kind
    · exact .none
  · obtain ⟨d, rfl, hparts⟩ := hd.object
    rw [dataOfRaw?.eq_def]
    dsimp only
    split
    · split
      · next type fields _ hfields =>
        have hmem : some fields ∈ fieldsOfRaw? members := by simp [hfields]
        obtain ⟨m, hm, items, hvalue, hread⟩ := exists_of_mem_fieldsOfRaw? hmem
        have hpart := hparts m hm
        obtain ⟨d, rfl, -⟩ := (hvalue ▸ hpart).array
        exact .some (isReading_udt ((h m hm).elements hpart hvalue fields hread))
      · exact .none
    · exact .none
  · obtain ⟨d, rfl, hparts⟩ := hd.object
    rw [elementOfRaw?.eq_def]
    dsimp only
    split
    · next name v _ hvalues =>
      have hmem : some v ∈ valuesOfRaw? members := by simp [hvalues]
      rw [valuesOfRaw?_eq_map] at hmem
      obtain ⟨m, hm, hread⟩ := List.mem_map.mp hmem
      have hm := List.mem_of_mem_filter hm
      exact .some (isReadElement_of_isReading ((h m hm).value (hparts m hm) v hread))
    · exact .none

/-- **What was read from a document is a reading**, whatever part of a value it is. -/
theorem reads (j : RawJson) : Reads j := by
  induction j using RawJson.induct with
  | scalar j harray hobject =>
    have hdata (kind : String) : dataOfRaw? kind j = scalarOfRaw? kind j := by
      cases j with
      | array items => exact absurd rfl (harray items)
      | object members => exact absurd rfl (hobject members)
      | _ => rfl
    refine ⟨fun hd => ?_, fun hd kind => hdata kind ▸ yieldsOnly_scalarOfRaw? kind hd.bounded _,
      fun hd => ?_, fun _ => fun h => absurd h (harray _)⟩
    · rw [ofRaw?.eq_def]
      split
      · split
        · exact .some (isReading_of_isScalar rfl trivial trivial (Nat.zero_le _))
        · exact .none
      · exact absurd rfl (hobject _)
      · exact .none
    · rw [elementOfRaw?.eq_def]
      split
      · exact absurd rfl (harray _)
      · exact absurd rfl (hobject _)
      · exact .none
  | array items ih => exact reads_array ih
  | object members ih => exact reads_object ih

end Value

end PortableQuery
