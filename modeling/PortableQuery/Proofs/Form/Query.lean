import PortableQuery.Form.Query
import PortableQuery.Proofs.Form.Condition

set_option autoImplicit false

/-!
# The JSON form of queries is read back

* **`Query.ofJson?_toJson_eq_some`**: which queries are read back, and as what;
* `Query.IsReading`, **`Query.yieldsOnly_ofRaw?`**: what is known of a query that was read;
* **`CompilerConfig.ofJson?_toJson`**: settings are read back.
-/

namespace PortableQuery

open JsonForm

/-! ## Parts of queries -/

theorem word?_natCast (n : UInt64) : word? (Json.int n.toNat).raw = some n := by
  have hn : n.toNat < 2 ^ 64 := n.toNat_lt
  rw [word?, natBelow?_natCast hn, Option.map_some, UInt64.ofNat_toNat]

@[simp] theorem SortKey.ofRaw?_toJson (s : SortKey) : ofRaw? s.toJson.raw = some s := by
  obtain ⟨field, direction⟩ := s
  cases direction <;> rfl

@[simp] theorem CursorToken.ofRaw?_toJson (t : CursorToken) : ofRaw? t.toJson.raw = some t := by
  rw [ofRaw?, toJson, bytes?_ofBytes]
  rfl

theorem optionalField_cursor (cursor : Option CursorToken) :
    optionalField CursorToken.ofRaw? (cursor.map (·.toJson.raw)) = some cursor := by
  cases cursor with
  | none => rfl
  | some t =>
    have hread : optionalField CursorToken.ofRaw? (some t.toJson.raw) =
        (CursorToken.ofRaw? t.toJson.raw).map some := rfl
    rw [Option.map_some, hread, CursorToken.ofRaw?_toJson]
    rfl

theorem optionalField_condition (p : Placement) (condition d : Option Condition) :
    optionalField (Condition.ofRaw? p) (condition.map (·.toJson.raw)) = some d ↔
      (∀ c ∈ condition, ∀ v ∈ c.values, v.FiniteDoubles) ∧
        d = condition.map Condition.asWritten := by
  cases condition with
  | none => simp [optionalField, eq_comm]
  | some c =>
    -- a written condition is an object, so it is not taken for a missing one
    have hread : optionalField (Condition.ofRaw? p) (some c.toJson.raw) =
        (Condition.ofJson? p c.toJson).map some := by
      obtain ⟨case, data, hc⟩ := c.exists_toJson_eq_single
      rw [hc]
      rfl
    rw [Option.map_some, hread]
    simpa using map_eq_some_iff (fun _ => Condition.ofJson?_toJson_eq_some (p := p) (c := c)) some d

namespace Query

/-- The query with every value that it compares with replaced by what `f` makes of it. -/
def mapValues (f : Value → Value) (q : Query) : Query :=
  { q with condition := q.condition.map (Condition.mapValues f) }

/-- The query that the texts in a written query stand for. -/
def asWritten (q : Query) : Query := q.mapValues Value.asWritten

/-- The values that the condition of a query compares with. -/
def values (q : Query) : List Value := q.condition.toList.flatMap Condition.values

theorem forall_mem_values {P : Value → Prop} {q : Query} :
    (∀ v ∈ q.values, P v) ↔ ∀ c ∈ q.condition, ∀ v ∈ c.values, P v := by
  rw [values, List.forall_mem_flatMap]
  simp

theorem values_mapValues (f : Value → Value) (q : Query) :
    (q.mapValues f).values = q.values.map f := by
  cases hc : q.condition with
  | none => simp [values, mapValues, hc]
  | some c => simp [values, mapValues, hc, Condition.values_mapValues]

theorem mapValues_eq_self {f : Value → Value} {q : Query} :
    q.mapValues f = q ↔ ∀ v ∈ q.values, f v = v := by
  rw [forall_mem_values]
  obtain ⟨entity, condition, projection, sorts, limit, skip, cursor⟩ := q
  cases condition with
  | none => simp [mapValues]
  | some c => simp [mapValues, Condition.mapValues_eq_self]

/-- **Nothing is lost exactly where no decimal zero has a sign and no leap second lies inside a
minute.** -/
theorem asWritten_eq_self {q : Query} : q.asWritten = q ↔
    ∀ v ∈ q.values, v.Everywhere Value.HasPlainZero ∧ v.Everywhere Value.HasPlainSecond := by
  rw [asWritten, mapValues_eq_self]
  exact forall₂_congr fun v _ => Value.asWritten_eq_self

theorem record?_toJson (q : Query) :
    record? ["entity", "condition", "projection", "sorts", "limit", "skip", "cursor"] 7
      q.toJson.raw = some [some (.string q.entity), q.condition.map (·.toJson.raw),
        some (Json.array (q.projection.map .string)).raw,
        some (Json.array (q.sorts.map SortKey.toJson)).raw, some (Json.int q.limit.toNat).raw,
        some (Json.int q.skip.toNat).raw, q.cursor.map (·.toJson.raw)] := by
  obtain ⟨entity, condition, projection, sorts, limit, skip, cursor⟩ := q
  cases condition <;> cases cursor <;> rfl

/-- **A query is read back exactly if every double in its condition is finite, and then as what the
texts in its form stand for.** -/
theorem ofJson?_toJson_eq_some {p : Placement} {q r : Query} :
    ofJson? p q.toJson = some r ↔ (∀ v ∈ q.values, v.FiniteDoubles) ∧ r = q.asWritten := by
  have hprojection : items? RawJson.string? (Json.array (q.projection.map .string)).raw =
      some q.projection := items?_map (fun _ => rfl) q.projection
  have hsorts : items? SortKey.ofRaw? (Json.array (q.sorts.map SortKey.toJson)).raw =
      some q.sorts := items?_map SortKey.ofRaw?_toJson q.sorts
  have hread : ofJson? p q.toJson =
      (optionalField (Condition.ofRaw? p) (q.condition.map (·.toJson.raw))).map
        fun condition => { q with condition } := by
    rw [ofJson?, ofRaw?]
    simp only [record?_toJson, Option.bind_eq_bind, Option.bind_some, fieldOr, hprojection, hsorts,
      word?_natCast, optionalField_cursor]
    cases optionalField (Condition.ofRaw? p) (q.condition.map (·.toJson.raw)) <;> rfl
  rw [hread, forall_mem_values]
  exact map_eq_some_iff (optionalField_condition p q.condition) _ r

theorem ofJson?_asWritten {p : Placement} {q : Query} (h : ∀ v ∈ q.values, v.FiniteDoubles) :
    ofJson? p q.asWritten.toJson = some q.asWritten := by
  refine ofJson?_toJson_eq_some.mpr ⟨?_, (mapValues_eq_self.mpr ?_).symm⟩
  · rw [asWritten, values_mapValues, List.forall_mem_map]
    exact fun v hv => Value.finiteDouble_asWritten (h v hv)
  · rw [asWritten, values_mapValues, List.forall_mem_map]
    exact fun v _ => v.asWritten_asWritten

/-! ## Queries that were read -/

/-- What is known of a query that was read from raw JSON of this depth. Three levels are written
where there are entries of an order, also if fewer were read. -/
structure IsReading (d : Nat) (q : Query) : Prop where
  finite : ∀ v ∈ q.values, v.FiniteDoubles
  plainSeconds : ∀ v ∈ q.values, v.Everywhere Value.HasPlainSecond
  depth_le : q.toJson.raw.depth ≤ max d 3

theorem depth_toJson_le {q : Query} {d : Nat} (h : ∀ c ∈ q.condition, c.toJson.raw.depth ≤ d) :
    q.toJson.raw.depth ≤ max d 2 + 1 := by
  have hprojection : (Json.array (q.projection.map .string)).raw.depth ≤ 1 :=
    Value.depth_array_map_le.mpr fun _ _ => Nat.zero_le 0
  have hsorts : (Json.array (q.sorts.map SortKey.toJson)).raw.depth ≤ 2 :=
    Value.depth_array_map_le.mpr fun _ _ => Nat.le_refl 1
  have hcursor (t : CursorToken) : t.toJson.raw.depth ≤ 1 :=
    Value.depth_array_map_le.mpr fun _ _ => Nat.zero_le 0
  rw [toJson, Json.raw, Json.rawMembers_eq_map, RawJson.depth_object_le, List.forall_mem_map]
  intro m hm
  simp only [List.mem_append, List.mem_cons, List.not_mem_nil, or_false, Option.mem_toList,
    Option.map_eq_some_iff] at hm
  rcases hm with ((rfl | ⟨c, hc, rfl⟩) | rfl | rfl | rfl | rfl) | ⟨t, -, rfl⟩
  · exact Nat.zero_le _
  · exact (h c hc).trans (Nat.le_max_left d 2)
  · exact hprojection.trans (by omega)
  · exact hsorts.trans (Nat.le_max_right d 2)
  · exact Nat.zero_le _
  · exact Nat.zero_le _
  · exact (hcursor t).trans (by omega)

/-- **A query that was read from a document is a reading.** -/
theorem yieldsOnly_ofRaw? (p : Placement) {j : RawJson} {d : Nat} (h : j.Within d) :
    YieldsOnly (IsReading d) (ofRaw? p j) := by
  have hcondition {field : Option RawJson} {d : Nat} (hfield : ∀ k ∈ field, k.Within d) :
      YieldsOnly (∀ c ∈ ·, Condition.IsReading d c)
        (optionalField (Condition.ofRaw? p) field) := by
    unfold optionalField
    split
    · exact .some nofun
    · exact .some nofun
    · next k _ =>
      refine ((Condition.reads p k).condition (hfield k rfl)).map fun c hc => ?_
      rintro _ ⟨⟩
      exact hc
  unfold ofRaw?
  refine (yieldsOnly_record? _ _ h).bind fun fields hfields => ?_
  obtain ⟨d, rfl, hfields⟩ := hfields
  split
  · next entity condition projection sorts limit skip cursor =>
    refine (hcondition (hfields condition (by simp))).bind fun c hc => ?_
    refine YieldsOnly.bind (.any _) fun projection _ => YieldsOnly.bind (.any _) fun sorts _ =>
      YieldsOnly.bind (.any _) fun limit _ => YieldsOnly.bind (.any _) fun skip _ =>
        YieldsOnly.bind (.any _) fun cursor _ => .some ⟨?_, ?_, ?_⟩
    · exact forall_mem_values.mpr fun c' hc' => (hc c' hc').finite
    · exact forall_mem_values.mpr fun c' hc' => (hc c' hc').plainSeconds
    · exact (depth_toJson_le fun c' hc' => (hc c' hc').depth_le).trans (by omega)
  · exact .none

end Query

namespace CompilerConfig

theorem ofRaw?_eq {j : RawJson} {idField pointLookup window : Option RawJson}
    (h : record? ["idField", "pointLookup", "maxResultWindow"] 0 j =
      some [idField, pointLookup, window]) :
    ofRaw? j = (do
      let idField ← fieldOr "_id" RawJson.string? idField
      let pointLookup ← fieldOr true bool? pointLookup
      let window ← fieldOr 10000 word? window
      pure ⟨idField, pointLookup, window⟩) := by
  unfold ofRaw?
  rw [h]
  rfl

/-- **Settings are read back.** -/
theorem ofJson?_toJson (c : CompilerConfig) : ofJson? c.toJson = some c := by
  have hrecord : record? ["idField", "pointLookup", "maxResultWindow"] 0 c.toJson.raw =
      some [some (.string c.idField), some (.bool c.pointLookup),
        some (Json.int c.maxResultWindow.toNat).raw] := rfl
  rw [ofJson?, ofRaw?_eq hrecord, fieldOr, fieldOr, fieldOr, word?_natCast]
  rfl

end CompilerConfig

end PortableQuery
