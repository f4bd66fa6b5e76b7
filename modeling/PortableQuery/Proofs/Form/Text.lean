import PortableQuery.Proofs.Form.Bounded
import PortableQuery.Proofs.Json.Text

set_option autoImplicit false

/-!
# Forms in texts

A form that is not too deep is read from its text with every double as the text of that double is
read. Types and settings have no doubles.
-/

namespace PortableQuery

open JsonForm

theorem readBy?_text {j k : Json} {m : NumberReading} (hbounded : j.raw.Bounded)
    (hdepth : j.raw.depth ≤ JsonReader.depthLimit) (hreread : j.reread m = k) :
    RawJson.readBy? m j.text = some k.raw :=
  hreread ▸ j.readBy?_text ⟨hbounded, hdepth⟩ m

variable {m : NumberReading}

@[simp] theorem reread_single (name : String) (j : Json) :
    (Json.single name j).reread m = .single name (j.reread m) := by
  simp [Json.single]

theorem reread_array_map {α : Type} {f : α → Json} {g : α → α} {xs : List α}
    (h : ∀ x ∈ xs, (f x).reread m = f (g x)) :
    (Json.array (xs.map f)).reread m = .array ((xs.map g).map f) := by
  rw [Json.reread_array, List.map_map, List.map_map]
  exact congrArg Json.array (List.map_congr_left h)

theorem reread_array_map_self {α : Type} {f : α → Json} {xs : List α}
    (h : ∀ x ∈ xs, (f x).reread m = f x) :
    (Json.array (xs.map f)).reread m = .array (xs.map f) := by
  rw [reread_array_map (g := id) h, List.map_id]

/-! ## Values -/

namespace Value

/-- A scalar with the double that its text is read as. -/
def scalarReread (m : NumberReading) : Value → Value
  | .double (.finite x) => .double (.finite (x.reread m))
  | v => v

/-- The value with every double as its text is read. -/
def reread (m : NumberReading) (v : Value) : Value := v.mapScalars (scalarReread m)

theorem isScalar_scalarReread {v : Value} (hv : v.isScalar = true) :
    (scalarReread m v).isScalar = true := by
  cases v with
  | list | map | udt => cases hv
  | double d => cases d <;> rfl
  | _ => rfl

@[simp] theorem reread_nearest (v : Value) : v.reread .nearest = v := by
  refine mapScalars_eq_self.mpr fun w _ _ => ?_
  cases w with
  | double d => cases d <;> simp [scalarReread]
  | _ => rfl

theorem finiteDoubles_reread {v : Value} (h : v.FiniteDoubles) : (v.reread m).FiniteDoubles := by
  refine everywhere_mapScalars (fun w hw => ?_) (fun _ => isScalar_scalarReread) fun w hw _ => ?_
  · cases w with
    | double => cases hw
    | _ => trivial
  · cases w with
    | double d =>
      obtain ⟨x, rfl⟩ := h _ hw
      exact ⟨_, rfl⟩
    | _ => trivial

theorem reread_elements {es : List (Named Value)}
    (ih : ∀ e ∈ es, e.value.toJson.reread m = (e.value.reread m).toJson) :
    (Json.array (es.map Element.toJson)).reread m =
      .array ((es.map fun e => (⟨e.name, e.value.reread m⟩ : Named Value)).map Element.toJson) :=
  reread_array_map fun e he => by simp [Element.toJson, ih e he]

/-- **The doubles in the form are those in the value.** -/
theorem toJson_reread (v : Value) : v.toJson.reread m = (v.reread m).toJson := by
  induction v using Value.induct with
  | scalar v hv =>
    rw [reread, mapScalars_of_isScalar hv]
    cases v with
    | list | map | udt => cases hv
    | double d => cases d <;> rfl
    | bytes bytes =>
      have hbytes : (ofBytes bytes).reread m = ofBytes bytes :=
        reread_array_map_self fun _ _ => rfl
      show (Json.single "bytes" (ofBytes bytes)).reread m = .single "bytes" (ofBytes bytes)
      rw [reread_single, hbytes]
    | _ => rfl
  | list items ih =>
    rw [reread, mapScalars_list, toJson, toJson, reread_single, itemsToJson_eq_map,
      itemsToJson_eq_map, reread_array_map ih]
    rfl
  | map entries ih =>
    rw [reread, mapScalars_map, toJson, toJson, reread_single, elementsToJson_eq_map,
      elementsToJson_eq_map, reread_elements ih]
    rfl
  | udt type fields ih =>
    rw [reread, mapScalars_udt, toJson, toJson, reread_single, elementsToJson_eq_map,
      elementsToJson_eq_map, Json.reread_object]
    simp only [List.map_cons, List.map_nil, reread_elements ih]
    rfl

/-- **The form of a value is read from its text**, with its doubles as their texts are read. -/
theorem readBy?_text {v : Value} (h : v.toJson.raw.depth ≤ JsonReader.depthLimit) :
    RawJson.readBy? m v.toJson.text = some (v.reread m).toJson.raw :=
  PortableQuery.readBy?_text v.bounded_toJson h v.toJson_reread

end Value

/-! ## Conditions and queries -/

namespace Condition

/-- The condition with every double as its text is read. -/
def reread (m : NumberReading) (c : Condition) : Condition := c.mapValues (Value.reread m)

@[simp] theorem reread_nearest (c : Condition) : c.reread .nearest = c :=
  mapValues_eq_self.mpr fun v _ => v.reread_nearest

theorem toJson_reread (c : Condition) : c.toJson.reread m = (c.reread m).toJson := by
  induction c using Condition.induct with
  | predicate o e => simp [reread, mapValues, toJson, Operator.toJson, Element.toJson,
      Value.toJson_reread]
  | join c cs ih =>
    rw [reread, mapValues_join]
    cases c
    all_goals
      rw [toJson, toJson, reread_single, childrenToJson_eq_map, childrenToJson_eq_map,
        reread_array_map ih]
      rfl
  | not c ih =>
    rw [toJson, reread_single, ih]
    rfl

theorem readBy?_text {c : Condition} (h : c.toJson.raw.depth ≤ JsonReader.depthLimit) :
    RawJson.readBy? m c.toJson.text = some (c.reread m).toJson.raw :=
  PortableQuery.readBy?_text c.bounded_toJson h c.toJson_reread

end Condition

namespace Query

/-- The query with every double as its text is read. -/
def reread (m : NumberReading) (q : Query) : Query := q.mapValues (Value.reread m)

@[simp] theorem reread_nearest (q : Query) : q.reread .nearest = q :=
  mapValues_eq_self.mpr fun v _ => v.reread_nearest

theorem toJson_reread (q : Query) : q.toJson.reread m = (q.reread m).toJson := by
  have hprojection : (Json.array (q.projection.map .string)).reread m =
      .array (q.projection.map .string) := reread_array_map_self fun _ _ => rfl
  have hsorts : (Json.array (q.sorts.map SortKey.toJson)).reread m =
      .array (q.sorts.map SortKey.toJson) :=
    reread_array_map_self fun s _ => by simp [SortKey.toJson]
  have hcursor (t : CursorToken) : t.toJson.reread m = t.toJson :=
    reread_array_map_self fun _ _ => rfl
  have hcondition (c : Condition) : c.toJson.reread m = (c.mapValues (Value.reread m)).toJson :=
    c.toJson_reread
  obtain ⟨entity, condition, projection, sorts, limit, skip, cursor⟩ := q
  cases condition <;> cases cursor <;>
    simp [toJson, reread, mapValues, hprojection, hsorts, hcursor, hcondition]

theorem readBy?_text {q : Query} (h : q.toJson.raw.depth ≤ JsonReader.depthLimit) :
    RawJson.readBy? m q.toJson.text = some (q.reread m).toJson.raw :=
  PortableQuery.readBy?_text q.bounded_toJson h q.toJson_reread

end Query

/-! ## Types and settings -/

theorem FieldType.toJson_reread (t : FieldType) : t.toJson.reread m = t.toJson := by
  induction t with
  | list element ih => simp [toJson, ih]
  | map value ih => simp [toJson, ih]
  | _ => simp [toJson]

theorem FieldType.readBy?_text {t : FieldType} (h : t.toJson.raw.depth ≤ JsonReader.depthLimit) :
    RawJson.readBy? m t.toJson.text = some t.toJson.raw :=
  PortableQuery.readBy?_text t.bounded_toJson h t.toJson_reread

theorem UserType.readBy?_text {t : UserType} (h : t.toJson.raw.depth ≤ JsonReader.depthLimit) :
    RawJson.readBy? m t.toJson.text = some t.toJson.raw := by
  have hfields : (Json.array (t.fields.map fun f =>
      .array [.string f.name, f.value.toJson])).reread m =
        .array (t.fields.map fun f => .array [.string f.name, f.value.toJson]) :=
    reread_array_map_self fun f _ => by simp [f.value.toJson_reread]
  refine PortableQuery.readBy?_text t.bounded_toJson h ?_
  rw [toJson, Json.reread_object]
  simp only [List.map_cons, List.map_nil, Json.reread_string, hfields]

theorem CompilerConfig.readBy?_text (c : CompilerConfig) :
    RawJson.readBy? m c.toJson.text = some c.toJson.raw :=
  PortableQuery.readBy?_text c.bounded_toJson (Nat.le_of_ble_eq_true rfl) (by simp [toJson])

end PortableQuery
