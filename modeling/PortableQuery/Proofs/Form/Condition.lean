import PortableQuery.Form.Condition
import PortableQuery.Proofs.Form.Reading
import PortableQuery.Proofs.Lowering.Operands

set_option autoImplicit false

/-!
# The JSON form of conditions is read back

A condition is read back if all of its values are, whatever place it stands in.

* **`Condition.ofJson?_toJson_eq_some`**: which conditions are read back, and as what;
* `Condition.IsReading`, **`Condition.reads`**: what is known of a condition that was read.
-/

namespace PortableQuery

open JsonForm

@[simp] theorem Operator.ofRaw?_toJson (o : Operator) : ofRaw? o.toJson.raw = some o :=
  ofFormName?_formName o

namespace Condition

/-! ## Values of conditions -/

/-- The values that a condition compares with, from left to right. -/
def values (c : Condition) : List Value := c.formula.atoms.map (·.value)

@[simp] theorem values_predicate (o : Operator) (e : Element) :
    (predicate o e).values = [e.value] := rfl

@[simp] theorem values_join (c : Connective) (cs : List Condition) :
    (join c cs).values = cs.flatMap values := by
  rw [values, formula_join, Formula.atoms_join, List.flatMap_map, List.map_flatMap]
  rfl

@[simp] theorem values_not (c : Condition) : (not c).values = c.values := rfl

mutual

/-- The condition with every value that it compares with replaced by what `f` makes of it. -/
def mapValues (f : Value → Value) : Condition → Condition
  | .predicate o e => .predicate o ⟨e.name, f e.value⟩
  | .join c cs => .join c (mapChildren f cs)
  | .not c => .not (mapValues f c)
termination_by structural c => c

/-- The conditions, the values in them replaced. -/
def mapChildren (f : Value → Value) : List Condition → List Condition
  | [] => []
  | c :: cs => mapValues f c :: mapChildren f cs
termination_by structural cs => cs

end

theorem mapValues_join (f : Value → Value) (c : Connective) (cs : List Condition) :
    mapValues f (join c cs) = join c (cs.map (mapValues f)) := by
  have hchildren : mapChildren f cs = cs.map (mapValues f) := by
    induction cs with
    | nil => rfl
    | cons c cs ih => rw [mapChildren, ih, List.map_cons]
  rw [mapValues, hchildren]

/-- The condition that the texts in a written condition stand for. -/
def asWritten (c : Condition) : Condition := c.mapValues Value.asWritten

theorem childrenToJson_eq_map (cs : List Condition) : childrenToJson cs = cs.map toJson := by
  induction cs with
  | nil => rfl
  | cons c cs ih => rw [childrenToJson, ih, List.map_cons]

theorem childrenOfRaw?_eq_mapM (p : Placement) (js : List RawJson) :
    childrenOfRaw? p js = js.mapM (ofRaw? p) := by
  induction js with
  | nil => rfl
  | cons j js ih => rw [childrenOfRaw?, ih, List.mapM_cons]

theorem values_mapValues (f : Value → Value) (c : Condition) :
    (c.mapValues f).values = c.values.map f := by
  induction c using Condition.induct with
  | predicate o e => rfl
  | join c cs ih =>
    rw [mapValues_join, values_join, values_join, List.flatMap_map, List.map_flatMap]
    exact List.flatMap_congr ih
  | not c ih => rw [mapValues, values_not, values_not, ih]

theorem mapValues_eq_self {f : Value → Value} {c : Condition} :
    c.mapValues f = c ↔ ∀ v ∈ c.values, f v = v := by
  induction c using Condition.induct with
  | predicate o e =>
    rw [mapValues, predicate.injEq, and_iff_right rfl, values_predicate, List.forall_mem_singleton]
    exact ⟨congrArg Named.value, congrArg (Named.mk e.name)⟩
  | join c cs ih =>
    rw [mapValues_join, join.injEq, and_iff_right rfl, Value.map_eq_self_iff, values_join,
      List.forall_mem_flatMap]
    exact forall₂_congr ih
  | not c ih => rw [mapValues, not.injEq, values_not, ih]

/-! ## Reading what was written -/

theorem predicateOfRaw?_toJson (o : Operator) (e : Element) (d : Condition) :
    predicateOfRaw? (.object [⟨"operator", o.toJson.raw⟩, ⟨"element", e.toJson.raw⟩]) = some d ↔
      e.value.FiniteDoubles ∧ d = .predicate o ⟨e.name, e.value.asWritten⟩ := by
  have hrecord : record? ["operator", "element"] 2
      (.object [⟨"operator", o.toJson.raw⟩, ⟨"element", e.toJson.raw⟩]) =
        some [some o.toJson.raw, some e.toJson.raw] := rfl
  have helement := Value.elementOfRaw?_toJson fun w => Value.ofJson?_toJson_eq_some (v := e.value)
  have hread : predicateOfRaw?
      (.object [⟨"operator", o.toJson.raw⟩, ⟨"element", e.toJson.raw⟩]) =
        (Value.elementOfRaw? e.toJson.raw).map (predicate o) := by
    rw [predicateOfRaw?, hrecord]
    simp only [Option.bind_eq_bind, Option.bind_some, Operator.ofRaw?_toJson, Element.ofRaw?]
    cases Value.elementOfRaw? e.toJson.raw <;> rfl
  rw [hread]
  exact map_eq_some_iff helement (predicate o) d

theorem exists_toJson_eq_single (c : Condition) : ∃ case data, c.toJson = .single case data := by
  cases c with
  | join c cs => cases c <;> exact ⟨_, _, rfl⟩
  | predicate | not => exact ⟨_, _, rfl⟩

/-- **A condition is read back exactly if every double in it is finite, and then as what the texts in
its form stand for**, as a document and as a part of one. -/
theorem ofJson?_toJson_eq_some {p : Placement} {c d : Condition} :
    ofJson? p c.toJson = some d ↔ (∀ v ∈ c.values, v.FiniteDoubles) ∧ d = c.asWritten := by
  induction c using Condition.induct generalizing d with
  | predicate o e =>
    rw [values_predicate, List.forall_mem_singleton]
    exact predicateOfRaw?_toJson o e d
  | join c cs ih =>
    have hchildren (ds : List Condition) :
        childrenOfRaw? p (Json.rawItems (childrenToJson cs)) = some ds ↔
          (∀ x ∈ cs, ∀ v ∈ x.values, v.FiniteDoubles) ∧ ds = cs.map asWritten := by
      rw [childrenToJson_eq_map, Json.rawItems_eq_map, List.map_map, childrenOfRaw?_eq_mapM,
        List.mapM_map]
      exact mapM_eq_some_iff fun x hx y => ih x hx
    have hread : ofJson? p (join c cs).toJson =
        (childrenOfRaw? p (Json.rawItems (childrenToJson cs))).map (join c) := by
      cases c <;> rfl
    rw [hread, values_join, List.forall_mem_flatMap, asWritten, mapValues_join]
    exact map_eq_some_iff hchildren (join c) d
  | not c ih =>
    have hread : ofJson? p (not c).toJson = (ofJson? p c.toJson).map not := by
      obtain ⟨case, data, hc⟩ := exists_toJson_eq_single c
      rw [toJson, hc]
      rfl
    rw [hread, values_not]
    exact map_eq_some_iff (fun _ => ih) not d

theorem ofJson?_asWritten {p : Placement} {c : Condition} (h : ∀ v ∈ c.values, v.FiniteDoubles) :
    ofJson? p c.asWritten.toJson = some c.asWritten := by
  refine ofJson?_toJson_eq_some.mpr ⟨?_, (mapValues_eq_self.mpr ?_).symm⟩
  · rw [asWritten, values_mapValues, List.forall_mem_map]
    exact fun v hv => Value.finiteDouble_asWritten (h v hv)
  · rw [asWritten, values_mapValues, List.forall_mem_map]
    exact fun v _ => v.asWritten_asWritten

end Condition

/-! ## Conditions that were read -/

namespace JsonForm

theorem yieldsOnly_record? (names : List String) (required : Nat) {j : RawJson} {d : Nat}
    (h : j.Within d) : YieldsOnly
      (fun fields => ∃ d', d = d' + 1 ∧ ∀ f ∈ fields, ∀ k ∈ f, RawJson.Within d' k)
      (record? names required j) := by
  unfold record?
  split
  · next members =>
    obtain ⟨d, rfl, hparts⟩ := h.object
    refine fun fields hfields => ⟨d, rfl, YieldsOnly.mapM (fun name _ => ?_) fields hfields⟩
    unfold field?
    split
    · exact .some nofun
    · next m heq =>
      have hm : m ∈ members.filter (·.name == name) := by simp [heq]
      refine .some ?_
      rintro _ ⟨⟩
      exact hparts m (List.mem_of_mem_filter hm)
    · exact .none
  · next items =>
    obtain ⟨d, rfl, hparts⟩ := h.array
    split
    · refine .some ⟨d, rfl, fun f hf => ?_⟩
      rcases List.mem_append.mp hf with hf | hf
      · obtain ⟨k, hk, rfl⟩ := List.mem_map.mp hf
        rintro _ ⟨⟩
        exact hparts k hk
      · obtain rfl := List.eq_of_mem_replicate hf
        exact nofun
    · exact .none
  · exact .none

end JsonForm

namespace Condition

/-- What is known of a condition that was read from raw JSON of this depth. -/
structure IsReading (d : Nat) (c : Condition) : Prop where
  finite : ∀ v ∈ c.values, v.FiniteDoubles
  plainSeconds : ∀ v ∈ c.values, v.Everywhere Value.HasPlainSecond
  depth_le : c.toJson.raw.depth ≤ d

variable {d : Nat}

theorem isReading_join {cs : List Condition} (c : Connective) (h : ∀ x ∈ cs, x.IsReading d) :
    IsReading (d + 2) (join c cs) := by
  refine ⟨?_, ?_, ?_⟩
  · rw [values_join, List.forall_mem_flatMap]
    exact fun x hx => (h x hx).finite
  · rw [values_join, List.forall_mem_flatMap]
    exact fun x hx => (h x hx).plainSeconds
  · cases c
    all_goals
      rw [toJson, childrenToJson_eq_map, Value.depth_single_le, Value.depth_array_map_le]
      exact fun x hx => (h x hx).depth_le

theorem isReading_predicate (o : Operator) {e : Element} (h : Value.IsReadElement d e) :
    IsReading (d + 2) (predicate o e) := by
  refine ⟨List.forall_mem_singleton.mpr h.1.finite, List.forall_mem_singleton.mpr h.1.plainSeconds,
    ?_⟩
  have helement := h.2
  rw [toJson, Value.depth_single_le, Json.raw, Json.rawMembers_eq_map, RawJson.depth_object_le]
  simpa [Operator.toJson, Json.raw, RawJson.depth] using helement

theorem yieldsOnly_predicateOfRaw? {j : RawJson} (h : j.Within d) :
    YieldsOnly (IsReading (d + 1)) (predicateOfRaw? j) := by
  refine (yieldsOnly_record? _ _ h).bind fun fields hfields => ?_
  obtain ⟨d, rfl, hfields⟩ := hfields
  split
  · next o e =>
    have he : e.Within d := hfields (some e) (by simp) e rfl
    refine (YieldsOnly.any _).bind fun o _ => ((Value.reads e).element he).bind fun e he => ?_
    exact .some (isReading_predicate o he)
  · exact .none

/-- Whatever part of a condition the raw JSON is read as, this is known of it. -/
structure Reads (p : Placement) (j : RawJson) : Prop where
  condition {d : Nat} (h : j.Within d) : YieldsOnly (IsReading d) (ofRaw? p j)
  children {d : Nat} (h : j.Within (d + 1)) {items : List RawJson} (hj : j = .array items) :
    YieldsOnly (∀ c ∈ ·, c.IsReading d) (childrenOfRaw? p items)

theorem reads_object {p : Placement} {members : List (Named RawJson)}
    (h : ∀ m ∈ members, Reads p m.value) : Reads p (.object members) := by
  refine ⟨fun hd => ?_, nofun⟩
  obtain ⟨d, rfl, hparts⟩ := hd.object
  rw [ofRaw?.eq_def]
  split
  · next case items heq =>
    cases heq
    have hdata := hparts ⟨case, .array items⟩ (by simp)
    have hread := h ⟨case, .array items⟩ (by simp)
    obtain ⟨d, rfl, -⟩ := hdata.array
    have hjoin (c : Connective) :
        YieldsOnly (IsReading (d + 2)) ((childrenOfRaw? p items).map (join c)) :=
      (hread.children hdata rfl).map fun _ => isReading_join c
    split
    · exact hjoin .and
    split
    · exact hjoin .or
    split
    · exact yieldsOnly_predicateOfRaw? hdata
    · exact .none
  · next case data _ heq =>
    cases heq
    have hdata := hparts ⟨case, data⟩ (by simp)
    have hread := h ⟨case, data⟩ (by simp)
    split
    · refine (hread.condition hdata).map fun c hc => ⟨hc.finite, hc.plainSeconds, ?_⟩
      rw [toJson, Value.depth_single_le]
      exact hc.depth_le
    split
    · exact yieldsOnly_predicateOfRaw? hdata
    · exact .none
  · exact .none

/-- **A condition that was read from a document is a reading**, and so are the parts of one. -/
theorem reads (p : Placement) (j : RawJson) : Reads p j := by
  induction j using RawJson.induct with
  | scalar j harray hobject =>
    refine ⟨fun _ => ?_, fun _ _ h => absurd h (harray _)⟩
    rw [ofRaw?.eq_def]
    split
    · exact absurd rfl (hobject _)
    · exact absurd rfl (hobject _)
    · exact .none
  | array items ih =>
    refine ⟨fun _ => .none, fun hd => ?_⟩
    obtain ⟨d', hd', hparts⟩ := hd.array
    obtain rfl := Nat.succ.inj hd'
    rintro _ ⟨⟩
    rw [childrenOfRaw?_eq_mapM]
    exact .mapM fun j hj => (ih j hj).condition (hparts j hj)
  | object members ih => exact reads_object ih

end Condition

end PortableQuery
