import PortableQuery.Form.Value
import PortableQuery.Proofs.Calendar.Relaxed
import PortableQuery.Proofs.Document.RoundTrip
import PortableQuery.Proofs.Json.Bounded
import PortableQuery.Proofs.Uuid

set_option autoImplicit false

/-!
# The JSON form of values is read back

A value is read back from its JSON form unless a double in it is not finite: that is written as
null. What comes back is what the texts in the form stand for, and that comes back as it is.
-/

namespace PortableQuery

open JsonForm

section Partial

variable {α β : Type}

theorem mapM_eq_some_iff {f : α → Option β} {P : α → Prop} {g : α → β} {xs : List α}
    (h : ∀ x ∈ xs, ∀ y, f x = some y ↔ P x ∧ y = g x) {ys : List β} :
    xs.mapM f = some ys ↔ (∀ x ∈ xs, P x) ∧ ys = xs.map g := by
  induction xs generalizing ys with
  | nil => simp [eq_comm]
  | cons x xs ih =>
    rw [List.forall_mem_cons] at h
    simp only [List.mapM_cons, Option.bind_eq_bind, Option.bind_eq_some_iff, h.1, ih h.2,
      Option.pure_def, Option.some.injEq, List.forall_mem_cons, List.map_cons]
    constructor
    · rintro ⟨_, ⟨hx, rfl⟩, _, ⟨hxs, rfl⟩, rfl⟩
      exact ⟨⟨hx, hxs⟩, rfl⟩
    · rintro ⟨⟨hx, hxs⟩, rfl⟩
      exact ⟨_, ⟨hx, rfl⟩, _, ⟨hxs, rfl⟩, rfl⟩

theorem map_eq_some_iff {x : Option α} {P : Prop} {r : α} (h : ∀ a, x = some a ↔ P ∧ a = r)
    (g : α → β) (b : β) : x.map g = some b ↔ P ∧ b = g r := by
  simp only [Option.map_eq_some_iff, h]
  constructor
  · rintro ⟨_, ⟨hP, rfl⟩, rfl⟩
    exact ⟨hP, rfl⟩
  · rintro ⟨hP, rfl⟩
    exact ⟨r, ⟨hP, rfl⟩, rfl⟩

end Partial

namespace JsonForm

theorem natBelow?_natCast {n bound : Nat} (h : n < bound) :
    natBelow? bound (Json.int n).raw = some n := by
  rw [Json.raw, natBelow?, if_pos ⟨by omega, by omega⟩, Int.toNat_natCast]

theorem items?_map {α : Type} {write : α → Json} {read? : RawJson → Option α}
    (h : ∀ a, read? (write a).raw = some a) (as : List α) :
    items? read? (Json.array (as.map write)).raw = some as := by
  have hread : read? ∘ Json.raw ∘ write = fun a => pure (id a) := funext h
  rw [Json.raw, Json.rawItems_eq_map, List.map_map, items?, List.mapM_map, hread, List.mapM_pure,
    List.map_id]
  rfl

theorem bytes?_ofBytes (bytes : List UInt8) : bytes? (ofBytes bytes).raw = some bytes := by
  refine items?_map (fun b => ?_) bytes
  have hb : b.toNat < 256 := b.toNat_lt
  rw [natBelow?_natCast hb, Option.map_some, UInt8.ofNat_toNat]

end JsonForm

namespace Value

/-! ## Parts of forms -/

theorem itemsToJson_eq_map (vs : List Value) : itemsToJson vs = vs.map toJson := by
  induction vs with
  | nil => rfl
  | cons v vs ih => rw [itemsToJson, ih, List.map_cons]

theorem elementsToJson_eq_map (es : List (Named Value)) :
    elementsToJson es = es.map Element.toJson := by
  induction es with
  | nil => rfl
  | cons e es ih => rw [elementsToJson, ih, List.map_cons, Element.toJson]

theorem itemsOfRaw?_eq_mapM (js : List RawJson) : itemsOfRaw? js = js.mapM ofRaw? := by
  induction js with
  | nil => rfl
  | cons j js ih => rw [itemsOfRaw?, ih, List.mapM_cons]

theorem elementsOfRaw?_eq_mapM (js : List RawJson) :
    elementsOfRaw? js = js.mapM elementOfRaw? := by
  induction js with
  | nil => rfl
  | cons j js ih => rw [elementsOfRaw?, ih, List.mapM_cons]

/-! ## Reading what was written -/

/-- The value is no double, or a finite one. -/
def HasFiniteDouble : Value → Prop
  | .double d => ∃ x, d = .finite x
  | _ => True

/-- A scalar is read back, a double only if it is finite. -/
theorem ofJson?_toJson_scalar {v w : Value} (hv : v.isScalar = true) :
    ofJson? v.toJson = some w ↔ v.HasFiniteDouble ∧ w = v.asWritten := by
  have hread {r : Value} {j : Json} (hj : ofJson? j = some r) :
      ofJson? j = some w ↔ True ∧ w = r := by
    rw [hj, Option.some.injEq, true_and, eq_comm]
  cases v with
  | list | map | udt => cases hv
  | null => exact hread rfl
  | bool b => exact hread rfl
  | text s => exact hread rfl
  | int i =>
    refine hread ?_
    have hrange : -2 ^ 63 ≤ i.toInt ∧ i.toInt < 2 ^ 63 := ⟨i.le_toInt, i.toInt_lt⟩
    show (if -2 ^ 63 ≤ i.toInt ∧ i.toInt < 2 ^ 63 then some (.int (Int64.ofInt i.toInt))
      else none) = some (Value.int i)
    rw [if_pos hrange, Int64.ofInt_toInt]
  | double d =>
    cases d with
    | finite x =>
      have hx : HasFiniteDouble (.double (.finite x)) := ⟨x, rfl⟩
      rw [iff_true_intro hx]
      exact hread rfl
    | nan | infinite =>
      refine iff_of_false (by rintro ⟨⟩) ?_
      rintro ⟨⟨x, ⟨⟩⟩, -⟩
  | decimal d =>
    refine hread ?_
    show (DecimalText.read d.text).toOption.map Value.decimal = _
    rw [DecimalText.read_text]
    rfl
  | bytes bytes =>
    refine hread ?_
    show (bytes? (ofBytes bytes).raw).map Value.bytes = _
    rw [bytes?_ofBytes]
    rfl
  | uuid u =>
    refine hread ?_
    show (Uuid.read? u.text).map Value.uuid = _
    rw [Uuid.read?_text]
    rfl
  | timestamp t =>
    refine hread ?_
    show (CalendarText.relaxedTimestamp (t.text "Z")).toOption.map Value.timestamp = _
    rw [CalendarText.relaxedTimestamp_text]
    rfl
  | date d =>
    refine hread ?_
    show (CalendarText.relaxedDate d.text).toOption.map Value.date = _
    rw [CalendarText.relaxedDate_text]
    rfl

theorem elementOfRaw?_toJson {e : Named Value} {P : Prop} {r : Value}
    (h : ∀ w, ofJson? e.value.toJson = some w ↔ P ∧ w = r) (f : Named Value) :
    elementOfRaw? (Element.toJson e).raw = some f ↔ P ∧ f = ⟨e.name, r⟩ := by
  have hread : elementOfRaw? (Element.toJson e).raw =
      (ofJson? e.value.toJson).map (Named.mk e.name) := by
    have hname : one? "name" [⟨"name", .string e.name⟩, ⟨"value", e.value.toJson.raw⟩] =
        some (.string e.name) := rfl
    have hvalue : valuesOfRaw? [⟨"name", .string e.name⟩, ⟨"value", e.value.toJson.raw⟩] =
        [ofJson? e.value.toJson] := rfl
    show elementOfRaw? (.object [⟨"name", .string e.name⟩, ⟨"value", e.value.toJson.raw⟩]) = _
    rw [elementOfRaw?, hname, hvalue]
    cases ofJson? e.value.toJson <;> rfl
  rw [hread]
  exact map_eq_some_iff h (Named.mk e.name) f

theorem itemsOfRaw?_toJson {vs : List Value}
    (ih : ∀ v ∈ vs, ∀ w, ofJson? v.toJson = some w ↔
      v.Everywhere HasFiniteDouble ∧ w = v.asWritten) (ws : List Value) :
    itemsOfRaw? (Json.rawItems (itemsToJson vs)) = some ws ↔
      (∀ v ∈ vs, v.Everywhere HasFiniteDouble) ∧ ws = vs.map asWritten := by
  rw [itemsToJson_eq_map, Json.rawItems_eq_map, List.map_map, itemsOfRaw?_eq_mapM, List.mapM_map]
  exact mapM_eq_some_iff ih

theorem elementsOfRaw?_toJson {es : List (Named Value)}
    (ih : ∀ e ∈ es, ∀ w, ofJson? e.value.toJson = some w ↔
      e.value.Everywhere HasFiniteDouble ∧ w = e.value.asWritten) (fs : List (Named Value)) :
    elementsOfRaw? (Json.rawItems (elementsToJson es)) = some fs ↔
      (∀ e ∈ es, e.value.Everywhere HasFiniteDouble) ∧
        fs = es.map fun e => ⟨e.name, e.value.asWritten⟩ := by
  rw [elementsToJson_eq_map, Json.rawItems_eq_map, List.map_map, elementsOfRaw?_eq_mapM,
    List.mapM_map]
  exact mapM_eq_some_iff fun e he => elementOfRaw?_toJson (ih e he)

theorem ofJson?_toJson_udt (type : String) (fields : List (Named Value)) :
    ofJson? (udt type fields).toJson =
      (elementsOfRaw? (Json.rawItems (elementsToJson fields))).map (udt type) := by
  have htype (j : RawJson) : one? "typeName" [⟨"typeName", .string type⟩, ⟨"fields", j⟩] =
      some (.string type) := rfl
  have hfields (js : List RawJson) :
      fieldsOfRaw? [⟨"typeName", .string type⟩, ⟨"fields", .array js⟩] = [elementsOfRaw? js] := rfl
  show dataOfRaw? "udt" (.object [⟨"typeName", .string type⟩,
    ⟨"fields", .array (Json.rawItems (elementsToJson fields))⟩]) = _
  rw [dataOfRaw?, if_pos rfl, htype, hfields]
  cases elementsOfRaw? (Json.rawItems (elementsToJson fields)) <;> rfl

/-- **A value is read back exactly if every double in it is finite, and then as what the texts in its
form stand for.** -/
theorem ofJson?_toJson_eq_some {v w : Value} :
    ofJson? v.toJson = some w ↔ v.Everywhere HasFiniteDouble ∧ w = v.asWritten := by
  induction v using Value.induct generalizing w with
  | scalar v hv => rw [ofJson?_toJson_scalar hv, everywhere_of_isScalar hv]
  | list items ih =>
    have hread : ofJson? (list items).toJson =
        (itemsOfRaw? (Json.rawItems (itemsToJson items))).map list := rfl
    have hself : HasFiniteDouble (list items) := trivial
    rw [hread, everywhere_list, and_iff_right hself, asWritten, mapScalars_list]
    exact map_eq_some_iff (itemsOfRaw?_toJson fun v hv _ => ih v hv) list w
  | map entries ih =>
    have hread : ofJson? (map entries).toJson =
        (elementsOfRaw? (Json.rawItems (elementsToJson entries))).map map := rfl
    have hself : HasFiniteDouble (map entries) := trivial
    rw [hread, everywhere_map, and_iff_right hself, asWritten, mapScalars_map]
    exact map_eq_some_iff (elementsOfRaw?_toJson fun e he _ => ih e he) map w
  | udt type fields ih =>
    have hself : HasFiniteDouble (udt type fields) := trivial
    rw [ofJson?_toJson_udt, everywhere_udt, and_iff_right hself, asWritten, mapScalars_udt]
    exact map_eq_some_iff (elementsOfRaw?_toJson fun e he _ => ih e he) (udt type) w

/-! ## What comes back comes back as it is -/

theorem isScalar_scalarAsWritten {v : Value} (hv : v.isScalar = true) :
    (scalarAsWritten v).isScalar = true := by
  cases v with
  | list | map | udt => cases hv
  | _ => rfl

theorem scalarAsWritten_scalarAsWritten (v : Value) :
    scalarAsWritten (scalarAsWritten v) = scalarAsWritten v := by
  cases v with
  | decimal d =>
    refine congrArg Value.decimal ((Decimal.make_eq_self _).mpr fun hzero => ?_)
    have hcoefficient : d.coefficient.val = 0 := hzero
    simp [Decimal.make, hcoefficient]
  | timestamp t =>
    exact congrArg Value.timestamp (Timestamp.asWritten_eq_self.mpr t.endsMinute_asWritten)
  | _ => rfl

theorem asWritten_asWritten (v : Value) : v.asWritten.asWritten = v.asWritten :=
  mapScalars_eq_self.mpr <| everywhere_mapScalars (by rintro w hw hw'; rw [hw] at hw'; cases hw')
    (fun _ => isScalar_scalarAsWritten) fun w _ _ _ => scalarAsWritten_scalarAsWritten w

theorem finiteDouble_asWritten {v : Value} (h : v.Everywhere HasFiniteDouble) :
    v.asWritten.Everywhere HasFiniteDouble := by
  refine everywhere_mapScalars (fun w hw => ?_) (fun _ => isScalar_scalarAsWritten) fun w hw _ => ?_
  · cases w with
    | double => cases hw
    | _ => trivial
  · have hfinite := h w hw
    cases w with
    | double => exact hfinite
    | _ => trivial

/-- **What comes back comes back as it is.** -/
theorem ofJson?_asWritten {v : Value} (h : v.Everywhere HasFiniteDouble) :
    ofJson? v.asWritten.toJson = some v.asWritten :=
  ofJson?_toJson_eq_some.mpr ⟨finiteDouble_asWritten h, (asWritten_asWritten v).symm⟩

end Value

end PortableQuery
