import PortableQuery.Proofs.Cql.Placeholders
import PortableQuery.Proofs.Json.Plain
import PortableQuery.Proofs.Lowering.Null
import PortableQuery.Proofs.Search.Operands
import PortableQuery.Proofs.Sql.Placeholders

set_option autoImplicit false

/-!
# What becomes of null

SQL, CQL and the search engine refuse a predicate on null, but for equality in SQL, which is written
as a test and binds nothing. None of them looks for null in a choice or a range.
-/

namespace PortableQuery

/-! ## SQL -/

namespace Sql

theorem error?_lowerPredicate (p : Predicate Value) {b b' : Binder Value} (hb : b.Unnamed)
    (hb' : b'.Unnamed) : error? (lowerPredicate p b) = error? (lowerPredicate p b') := by
  unfold lowerPredicate
  split
  · rfl
  · rfl
  · exact hb.error?_bindAll_congr hb' fun _ _ _ _ => rfl
  · exact hb.error?_bind_congr hb' fun _ _ h h' => h.error?_bind_congr h' fun _ _ _ _ => rfl
  · exact hb.error?_bind_congr hb' fun _ _ _ _ => rfl
  · rfl

theorem steady (schema : Option String) : Dialect.Steady (binding schema) where
  lower {_ _ _ _ p _} _ hb := error?_lowerPredicate p (by simp [Binder.Unnamed, hb, dialect])
    (by simp [Binder.Unnamed, dialect])
  join _ _ := rfl
  negate _ _ := rfl

theorem nullSteps (schema : Option String) :
    Dialect.NullSteps (binding schema) .null (· = .equals) where
  steady := steady schema
  equals_of_spares ho := ho
  toNative_eq_null {scope v} := by
    cases v <;> simp [dialect, ofExcept_eq, toNative]
  translate_eq_null := Iff.rfl
  binds_iff {a} := by
    show bindsOperand a = true ↔ _
    rw [bindsOperand, Bool.not_eq_true', Bool.and_eq_false_iff, beq_eq_false_iff_ne, not_and_or,
      ← Bool.not_eq_true, Value.isNull_iff]
  lower_null {o _ _ _} ho := by
    cases o <;> first | exact absurd rfl ho | exact ⟨_, rfl⟩
  assemble hs := by
    obtain rfl := Except.ok.inj hs
    exact ⟨rfl, rfl⟩

/-- **A test for null binds nothing.** -/
theorem lowerCondition_equals_null (schema : Option String) (config : CompilerConfig)
    (entity : String) {name : String} (hname : name.isEmpty = false) (b : Binder Value) :
    (dialect (Except QueryError) schema).lowerCondition config entity
      (.predicate .equals ⟨name, .null⟩) b = .ok (identifier name ++ " IS NULL", b) := by
  simp only [Dialect.lowerCondition, Dialect.predicate, hname]
  rfl

end Sql

/-! ## CQL -/

namespace Cql

theorem error?_lowerPredicate (p : Predicate Native) {b b' : Binder Native} (hb : b.Unnamed)
    (hb' : b'.Unnamed) : error? (lowerPredicate p b) = error? (lowerPredicate p b') := by
  unfold lowerPredicate
  split
  · rfl
  · exact hb.error?_bindAll_congr hb' fun _ _ _ _ => rfl
  · exact hb.error?_bind_congr hb' fun _ _ h h' => h.error?_bind_congr h' fun _ _ _ _ => rfl
  · rfl
  · exact hb.error?_bind_congr hb' fun _ _ _ _ => rfl
  · rfl

variable (k : Keyspace) (schema : Option (SchemaLookup (Except QueryError)))

theorem steady : Dialect.Steady (binding k schema) where
  lower {_ _ _ _ p _} _ hb := error?_lowerPredicate p (by simp [Binder.Unnamed, hb, dialect])
    (by simp [Binder.Unnamed, dialect])
  join {c} _ hc := by
    cases c with
    | and => rfl
    | or => cases hc
  negate hc := by cases hc

theorem toNative_eq_null {scope : Scope} {v : Value} :
    toNative schema scope v = .ok .null ↔ v = .null := by
  constructor
  · intro h
    cases v with
    | null => rfl
    | list items =>
      obtain ⟨ns, -, h⟩ := bind_eq_ok.mp h
      cases h
    | map entries =>
      obtain ⟨ns, -, h⟩ := bind_eq_ok.mp h
      cases h
    | udt type fields =>
      cases schema with
      | none => cases h
      | some ask =>
        obtain ⟨declared, -, h⟩ := bind_eq_ok.mp h
        obtain ⟨ns, -, h⟩ := bind_eq_ok.mp h
        cases h
    | _ => cases h
  · rintro rfl
    rfl

theorem nullSteps : Dialect.NullSteps (binding k schema) .null (fun _ => False) where
  steady := steady k schema
  equals_of_spares := False.elim
  toNative_eq_null := toNative_eq_null schema
  translate_eq_null := Iff.rfl
  binds_iff {a} := by simp [binding]
  lower_null {o _ _ _} _ := ⟨_, rfl⟩
  assemble hs := by
    obtain ⟨order, -, hs⟩ := bind_eq_ok.mp hs
    obtain rfl := pure_eq_ok.mp hs
    exact ⟨rfl, rfl⟩

end Cql

/-! ## The search engine -/

theorem Value.toPlain_eq_null {scope : Scope} {v : Value} :
    v.toPlain scope = .ok .null ↔ v = .null := by
  constructor
  · intro h
    cases v with
    | null => rfl
    | double d => cases d <;> cases h
    | list items =>
      obtain ⟨js, -, h⟩ := bind_eq_ok.mp h
      cases h
    | map entries =>
      obtain ⟨ms, -, h⟩ := bind_eq_ok.mp h
      cases h
    | _ => cases h
  · rintro rfl
    rfl

namespace Search

variable (index : Index)

theorem error?_lowerPredicate (p : Predicate Json) {b b' : Binder Json} (hb : b.Unnamed)
    (hb' : b'.Unnamed) : error? (lowerPredicate p b) = error? (lowerPredicate p b') := by
  unfold lowerPredicate
  split
  · rfl
  · exact hb.error?_bind_congr hb' fun _ _ _ _ => rfl
  · exact hb.error?_bindAll_congr hb' fun _ _ _ _ => rfl
  · exact hb.error?_bind_congr hb' fun _ _ _ _ => rfl
  · exact hb.error?_bindAll_congr hb' fun _ _ _ _ => rfl
  · split
    · exact hb.error?_bind_congr hb' fun _ _ _ _ => rfl
    · rfl
  · rfl

theorem steady : Dialect.Steady (binding index) where
  lower {_ _ _ _ p _} _ hb := error?_lowerPredicate p (by simp [Binder.Unnamed, hb, dialect])
    (by simp [Binder.Unnamed, dialect])
  join _ _ := rfl
  negate _ _ := rfl

theorem nullSteps : Dialect.NullSteps (binding index) .null (fun _ => False) where
  steady := steady index
  equals_of_spares := False.elim
  toNative_eq_null {scope v} := by
    show (MonadExcept.ofExcept (v.toPlain scope) : Except QueryError Json) = _ ↔ _
    rw [ofExcept_eq, Value.toPlain_eq_null]
  translate_eq_null {o n} := by
    cases o <;> cases n <;> simp [binding, termOf]
  binds_iff {a} := by simp [binding]
  lower_null {o _ _ _} _ := ⟨_, rfl⟩
  assemble hs := by
    rw [eq_of_assemble hs]
    exact ⟨rfl, rfl⟩

end Search

/-! ## Stores -/

/-- **SQL, CQL and the search engine refuse a predicate on null, unless it is one of equality in
SQL, which is a test that binds nothing. They refuse null among keys. What they bind is null exactly
if an item of a choice or a bound of a range is.** -/
theorem bare_null_refused (config : CompilerConfig) (q : Query) :
    (∀ schema, (Sql.dialect (Except QueryError) schema).GuardsNull .null (· = .equals) config q) ∧
      (∀ k (schema : Option (SchemaLookup (Except QueryError))),
        (Cql.dialect k schema).GuardsNull .null (fun _ => False) config q) ∧
      (∀ index,
        (Search.dialect (Except QueryError) index).GuardsNull .null (fun _ => False) config q) ∧
      ∀ schema name b, name.isEmpty = false →
        (Sql.dialect (Except QueryError) schema).lowerCondition config q.entity
          (.predicate .equals ⟨name, .null⟩) b = .ok (Sql.identifier name ++ " IS NULL", b) :=
  ⟨fun schema => (Sql.nullSteps schema).guardsNull config q,
    fun k schema => (Cql.nullSteps k schema).guardsNull config q,
    fun index => (Search.nullSteps index).guardsNull config q,
    fun schema _ b hname => Sql.lowerCondition_equals_null schema config q.entity hname b⟩

/-- People of one status or of none. -/
def someStatus : Condition := .predicate .oneOf ⟨"status", .list [.text "a", .null]⟩

/-- People of a rank that is at most one, with null where the least would stand. -/
def lowRank : Condition := .predicate .between ⟨"rank", .list [.null, .int 1]⟩

/-- People of some status who are above a rank. -/
def above (rank : Value) : Condition := .join .and [someStatus, .predicate .greater ⟨"rank", rank⟩]

/-- A query for people. -/
def personQuery (c : Condition) : Query where
  entity := "person"
  condition := some c

/-- Where the rank is null the query is refused; where it is a number, what is bound for the status
is null. -/
theorem bare_null_refused_above :
    (∃ reason, (Sql.dialect (Except QueryError) none).compile {} (personQuery (above .null)) =
      .error (.invalid reason)) ∧
    (∃ reason, (Cql.dialect (m := Except QueryError) ⟨"app", [], false⟩ none).compile {}
      (personQuery (above .null)) = .error (.invalid reason)) ∧
    (∃ reason, (Search.dialect (Except QueryError) ⟨"people", "kind"⟩).compile {}
      (personQuery (above .null)) = .error (.invalid reason)) ∧
    ∃ s, (Sql.dialect (Except QueryError) none).compile {} (personQuery (above (.int 1))) = .ok s ∧
      ∃ p ∈ s.parameters, p.value = .null := by
  obtain ⟨hsql, hcql, hsearch, -⟩ := bare_null_refused {} (personQuery (above .null))
  obtain ⟨hnumber, -⟩ := bare_null_refused {} (personQuery (above (.int 1)))
  have hvisits {F N : Type} {d : Dialect (Except QueryError) F N}
      (h : d.keySplit? {} (above .null) = none) :
      d.visits {} (above .null) = [.node (above .null), .node someStatus] ++
        .node (.predicate .greater ⟨"rank", .null⟩) :: [] := by
    rw [Dialect.visits, Dialect.remainder, Option.bind_some, h]
    rfl
  have hbefore {P : Visit → Prop} (hwhole : P (.node (above .null)))
      (hstatus : P (.node someStatus)) :
      ∀ v ∈ [Visit.node (above .null), .node someStatus], P v :=
    List.forall_mem_cons.mpr ⟨hwhole, List.forall_mem_singleton.mpr hstatus⟩
  have hstatus : ∃ a ∈ operandsOf ((Sql.dialect (Except QueryError) none).remainder {}
      (personQuery (above (.int 1))).condition), a.value = .null ∧
        (a.operator = .oneOf ∨ a.operator = .between) :=
    ⟨⟨.oneOf, "status", .null⟩, List.mem_cons_of_mem _ List.mem_cons_self, rfl, .inl rfl⟩
  refine ⟨?_, ?_, ?_, _, rfl, ((hnumber none).parameters rfl).mpr hstatus⟩
  · exact (hsql none).reported rfl rfl rfl (hvisits rfl) (hbefore rfl rfl) ⟨rfl, by decide⟩
  · exact (hcql _ none).reported rfl rfl rfl (hvisits rfl) (hbefore rfl rfl) ⟨rfl, id⟩
  · exact (hsearch _).reported rfl rfl rfl (hvisits rfl) (hbefore rfl rfl) ⟨rfl, id⟩

/-- The condition is compiled, and one of the values that are bound for it is null. -/
def BindsNull {F N : Type} (d : Dialect (Except QueryError) F N) (null : N) (c : Condition) :
    Prop :=
  ∃ s, d.compile {} (personQuery c) = .ok s ∧ ∃ p ∈ s.parameters, p.value = null

/-- **Null is bound as an item of a choice and as a bound of a range**, in each of the stores. -/
theorem null_bound_in_lists :
    (BindsNull (Sql.dialect (Except QueryError) none) .null someStatus ∧
        BindsNull (Sql.dialect (Except QueryError) none) .null lowRank) ∧
      (BindsNull (Cql.dialect (m := Except QueryError) ⟨"app", [], false⟩ none) .null someStatus ∧
        BindsNull (Cql.dialect (m := Except QueryError) ⟨"app", [], false⟩ none) .null lowRank) ∧
      BindsNull (Search.dialect (Except QueryError) ⟨"people", "kind"⟩) .null someStatus ∧
        BindsNull (Search.dialect (Except QueryError) ⟨"people", "kind"⟩) .null lowRank := by
  have hitem {N : Type} (p null : Parameter N) : null ∈ [p, null] :=
    List.mem_cons_of_mem _ (List.mem_singleton_self null)
  have hbound {N : Type} (null p : Parameter N) : null ∈ [null, p] := List.mem_cons_self
  exact ⟨⟨⟨_, rfl, _, hitem .., rfl⟩, _, rfl, _, hbound .., rfl⟩,
    ⟨⟨_, rfl, _, hitem .., rfl⟩, _, rfl, _, hbound .., rfl⟩,
    ⟨_, rfl, _, hitem .., rfl⟩, _, rfl, _, hbound .., rfl⟩

end PortableQuery
