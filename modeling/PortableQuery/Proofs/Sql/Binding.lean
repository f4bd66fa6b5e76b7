import PortableQuery.Proofs.Json.Renderable
import PortableQuery.Proofs.Sql.Placeholders
import PortableQuery.Sql.Binding

set_option autoImplicit false

/-!
# Which SQL statements can be bound

Compiling refuses an operand that is a user-defined value. It does not look into lists and maps, but
binding does: a list or a map is bound as its plain form, which it need not have.
-/

namespace PortableQuery.Sql

/-! ## Parameters -/

/-- The value can be bound: it is a scalar, or its plain form is there. -/
def Bindable (v : Value) : Prop := v.isScalar = true ∨ v.Everywhere Value.Renderable

theorem exists_boundValue_iff (scope : Scope) (v : Value) :
    (∃ x, boundValue scope v = .ok x) ↔ Bindable v := by
  cases v with
  | list items =>
    simp only [boundValue, exists_map_eq_ok, Bindable, Value.isScalar, Bool.false_eq_true,
      false_or, Value.exists_toPlain_iff]
  | map entries =>
    simp only [boundValue, exists_map_eq_ok, Bindable, Value.isScalar, Bool.false_eq_true,
      false_or, Value.exists_toPlain_iff]
  | udt type fields =>
    refine iff_of_false (by simp [boundValue]) ?_
    rintro (h | h)
    · cases h
    · exact h.self
  | _ => exact iff_of_true ⟨_, rfl⟩ (.inl rfl)

theorem exists_bindFrom_iff {entity : String} {i : Nat} {ps : List (Parameter Value)} :
    (∃ vs, bindFrom entity i ps = .ok vs) ↔ ∀ p ∈ ps, Bindable p.value := by
  induction ps generalizing i with
  | nil => exact iff_of_true ⟨[], rfl⟩ (List.forall_mem_nil _)
  | cons p ps ih =>
    rw [List.forall_mem_cons, ← ih (i := i + 1),
      ← exists_boundValue_iff ⟨entity, p.name.getD ("$" ++ toString i)⟩]
    simp only [bindFrom, bind_eq_ok, pure_eq_ok]
    constructor
    · rintro ⟨_, v, hv, vs, hvs, -⟩
      exact ⟨⟨v, hv⟩, vs, hvs⟩
    · rintro ⟨⟨v, hv⟩, vs, hvs⟩
      exact ⟨_, v, hv, vs, hvs, rfl⟩

/-- **Parameters can be bound if the value of each can.** -/
theorem exists_bindParameters_iff {entity : String} {ps : List (Parameter Value)} :
    (∃ vs, bindParameters entity ps = .ok vs) ↔ ∀ p ∈ ps, Bindable p.value :=
  exists_bindFrom_iff

theorem errsOnly_boundValue (scope : Scope) (v : Value) :
    ErrsOnly (·.IsConversion scope.entity) (boundValue scope v) := by
  cases v with
  | list | map => exact (Value.errsOnly_toPlain scope _).map _
  | udt type fields => exact .error (scope.isConversion_error _)
  | _ => exact .ok _

theorem errsOnly_bindFrom (entity : String) (i : Nat) (ps : List (Parameter Value)) :
    ErrsOnly (·.IsConversion entity) (bindFrom entity i ps) := by
  induction ps generalizing i with
  | nil => exact .ok _
  | cons p ps ih =>
    exact (errsOnly_boundValue _ p.value).bind fun _ _ => (ih (i + 1)).bind fun _ _ => .ok _

/-- **Every error of binding is one of conversion.** -/
theorem errsOnly_bindParameters (entity : String) (ps : List (Parameter Value)) :
    ErrsOnly (·.IsConversion entity) (bindParameters entity ps) :=
  errsOnly_bindFrom entity 1 ps

/-! ## Statements -/

section Compiled

variable {schema : Option String} {entity : String}

theorem values_of_bound {as : List (Comparison Value)} {us : List (Named Value)}
    (h : List.Forall₂ ((dialect (Except QueryError) schema).Bound (fun _ v => v) entity) as us) :
    us.map (·.value) = as.map (·.value) ∧
      ∀ a ∈ as, ∀ type fields, a.value ≠ .udt type fields := by
  induction h with
  | nil => exact ⟨rfl, List.forall_mem_nil _⟩
  | @cons a u as us hu _ ih =>
    obtain ⟨n, hn, hnu⟩ := map_eq_ok.mp hu.2
    have hvalue : a.value = u.value := (eq_of_toNative_eq_ok hn).trans hnu
    rw [List.map_cons, List.map_cons, ih.1, hvalue, List.forall_mem_cons]
    refine ⟨rfl, fun type fields hudt => ?_, ih.2⟩
    rw [hudt] at hn
    cases hn

/-- What holds of null and of the operands that are bound holds of all operands. -/
theorem forall_operands_iff {P : Value → Prop} (hnull : P .null) {as : List (Comparison Value)} :
    (∀ a ∈ as.filter bindsOperand, P a.value) ↔ ∀ a ∈ as, P a.value := by
  refine ⟨fun h a ha => ?_, fun h a ha => h a (List.mem_of_mem_filter ha)⟩
  by_cases hbinds : bindsOperand a = true
  · exact h a (List.mem_filter.mpr ⟨ha, hbinds⟩)
  · have hvalue : a.value.isNull = true := by
      simp only [bindsOperand, Bool.not_eq_true, Bool.not_eq_false', Bool.and_eq_true] at hbinds
      exact hbinds.2
    rw [Value.isNull_iff.mp hvalue]
    exact hnull

/-- **No operand of a compiled statement is a user-defined value. The statement can be bound exactly
if every operand that is a list or a map has a plain form; if it cannot, the error is one of
conversion.** -/
theorem binds_iff_of_compile {config : CompilerConfig} {q : Query} {s : Statement String Value}
    (h : (dialect (Except QueryError) schema).compile config q = .ok s) :
    (∀ a ∈ operandsOf q.condition, ∀ type fields, a.value ≠ .udt type fields) ∧
      ((∃ vs, bindParameters s.entity s.parameters = .ok vs) ↔
        ∀ a ∈ operandsOf q.condition, Bindable a.value) ∧
      ErrsOnly (·.IsConversion q.entity) (bindParameters s.entity s.parameters) := by
  obtain ⟨l, -, hs⟩ := Dialect.exists_lowering_of_compile h
  have hentity : s.entity = q.entity := by
    obtain rfl := Except.ok.inj hs
    rfl
  obtain ⟨us, hus, hparameters, -⟩ := exists_of_compile h
  obtain ⟨hvalues, hudt⟩ := values_of_bound hus
  have hnone : ∀ a ∈ operandsOf q.condition, ∀ type fields, a.value ≠ .udt type fields :=
    (forall_operands_iff (P := fun v => ∀ type fields, v ≠ .udt type fields) nofun).mp hudt
  refine ⟨hnone, ?_, hentity ▸ errsOnly_bindParameters _ _⟩
  calc (∃ vs, bindParameters s.entity s.parameters = .ok vs)
      ↔ ∀ v ∈ us.map (·.value), Bindable v := by
        rw [exists_bindParameters_iff, hparameters, List.forall_mem_map, List.forall_mem_map]
    _ ↔ ∀ a ∈ (operandsOf q.condition).filter bindsOperand, Bindable a.value := by
        rw [hvalues, List.forall_mem_map]
    _ ↔ ∀ a ∈ operandsOf q.condition, Bindable a.value := forall_operands_iff (.inl rfl)

end Compiled

/-- A query for the tags of a person, and for a score beside them. -/
def scored (tags : Value) : Query where
  entity := "person"
  condition := some (.join .and [.predicate .equals ⟨"tags", tags⟩,
    .predicate .greater ⟨"score", .double .nan⟩, .predicate .equals ⟨"left", .null⟩])

/-- A map in a list can be bound, and so can a double without digits that stands alone. -/
theorem binds_iff_of_compile_scored :
    ∃ s vs, (dialect (Except QueryError) none).compile {}
        (scored (.list [.map [⟨"k", .int 1⟩, ⟨"l", .null⟩]])) = .ok s ∧
      bindParameters s.entity s.parameters = .ok vs := by
  obtain ⟨s, hs⟩ : ∃ s, (dialect (Except QueryError) none).compile {}
      (scored (.list [.map [⟨"k", .int 1⟩, ⟨"l", .null⟩]])) = .ok s := ⟨_, rfl⟩
  have htags : Bindable (.list [.map [⟨"k", .int 1⟩, ⟨"l", .null⟩]]) := by
    have hone : (Value.int 1).Everywhere Value.Renderable :=
      (Value.everywhere_of_isScalar rfl).mpr trivial
    have hnull : Value.null.Everywhere Value.Renderable :=
      (Value.everywhere_of_isScalar rfl).mpr trivial
    right
    simp [Value.everywhere_list, Value.everywhere_map, Value.Renderable, hone, hnull]
  have hall : ∀ a ∈ operandsOf (scored (.list [.map [⟨"k", .int 1⟩, ⟨"l", .null⟩]])).condition,
      Bindable a.value := by
    simp only [operandsOf, scored, Option.toList_some, Condition.operands_join,
      Condition.operands_predicate, Comparison.operands, List.flatMap_cons, List.flatMap_nil,
      List.cons_append, List.nil_append, List.forall_mem_cons]
    exact ⟨htags, .inl rfl, .inl rfl, List.forall_mem_nil _⟩
  obtain ⟨vs, hvs⟩ := (binds_iff_of_compile hs).2.1.mpr hall
  exact ⟨s, vs, hs, hvs⟩

/-- The query for these tags is compiled, and its statement is refused when it is bound. -/
def CompilesUnbound (tags : Value) (fault : ConversionFault) : Prop :=
  ∃ s, (dialect (Except QueryError) none).compile {} (scored tags) = .ok s ∧
    bindParameters s.entity s.parameters = .error (.conversion "person" "$1" fault)

/-- **What stands in a list is not looked at when a query is compiled.** A user-defined value, a
double without digits and a repeated key are found when the statement is bound. -/
theorem compiles_unbound :
    CompilesUnbound (.list [.udt "address" []]) (.plainUdt "address") ∧
      CompilesUnbound (.list [.double .nan]) (.nonFinite .nan) ∧
      CompilesUnbound (.list [.map [⟨"k", .int 1⟩, ⟨"k", .int 2⟩]]) (.duplicateMapKey "k") :=
  ⟨⟨_, rfl, rfl⟩, ⟨_, rfl, rfl⟩, ⟨_, rfl, rfl⟩⟩

end PortableQuery.Sql
