import PortableQuery.Aql.Loop
import PortableQuery.Document.Find
import PortableQuery.Proofs.Cql.RoundTrip
import PortableQuery.Proofs.Document.Encoding
import PortableQuery.Proofs.Json.Plain
import PortableQuery.Proofs.Lowering.EmptyName
import PortableQuery.Search.Body

set_option autoImplicit false

/-!
# Which names have to be there

No dialect compiles a predicate without a field, and a builder finishes no query without an entity.
The other names of a query need not be there.
-/

namespace PortableQuery

open Dialect

/-! ## Conversions -/

theorem Sql.entityBlind (schema : Option String) :
    (Sql.dialect (Except QueryError) schema).EntityBlind := by
  intro entity entity' field v n h
  cases v <;> first | exact h | cases h

theorem Cql.toNative_of_scope (v : Value) (scope scope' : Scope) (n : Native)
    (h : Cql.toNative (none : Option (SchemaLookup (Except QueryError))) scope v = .ok n) :
    Cql.toNative (none : Option (SchemaLookup (Except QueryError))) scope' v = .ok n := by
  induction v using Value.induct generalizing scope scope' n with
  | scalar v hv => cases v <;> first | exact h | cases hv
  | list items ih =>
    simp only [Cql.toNative, Cql.itemsToNative_eq_mapM] at h ⊢
    obtain ⟨ns, hns, h⟩ := bind_eq_ok.mp h
    refine bind_eq_ok.mpr ⟨ns, mapM_eq_ok.mpr ?_, h⟩
    exact forall₂_imp_of_mem (fun v hv n hn => ih v hv scope scope' n hn) (mapM_eq_ok.mp hns)
  | map entries ih =>
    simp only [Cql.toNative, Cql.entriesToNative_eq_mapM] at h ⊢
    obtain ⟨ns, hns, h⟩ := bind_eq_ok.mp h
    refine bind_eq_ok.mpr ⟨ns, mapM_eq_ok.mpr ?_, h⟩
    refine forall₂_imp_of_mem (fun e he y hy => ?_) (mapM_eq_ok.mp hns)
    obtain ⟨n, hn, hy⟩ := bind_eq_ok.mp hy
    exact bind_eq_ok.mpr ⟨n, ih e he _ _ n hn, hy⟩
  | udt type fields => cases h

theorem Cql.entityBlind (k : Cql.Keyspace) :
    (Cql.dialect k (none : Option (SchemaLookup (Except QueryError)))).EntityBlind :=
  fun _ _ _ v n h => Cql.toNative_of_scope v _ _ n h

theorem Document.entityBlind : (Document.dialect (Except QueryError)).EntityBlind := by
  intro entity entity' field v n h
  exact (ofExcept_eq _).trans (Document.encode_of_scope v _ _ n ((ofExcept_eq _).symm.trans h))

theorem Search.entityBlind (index : Search.Index) :
    (Search.dialect (Except QueryError) index).EntityBlind := by
  intro entity entity' field v n h
  exact (ofExcept_eq _).trans (v.toPlain_of_scope _ _ n ((ofExcept_eq _).symm.trans h))

theorem Aql.entityBlind : (Aql.dialect (Except QueryError)).EntityBlind := by
  intro entity entity' field v n h
  exact (ofExcept_eq _).trans (v.toPlain_of_scope _ _ n ((ofExcept_eq _).symm.trans h))

/-! ## Statements -/

theorem Cql.exists_orderEntries_iff {k : Cql.Keyspace} (entity : String) {sorts : List SortKey} :
    (∃ entries, Cql.orderEntries k entity sorts = .ok entries) ↔
      ∀ s ∈ sorts, s.field ∈ k.clustering := by
  constructor
  · rintro ⟨entries, h⟩
    exact Cql.mem_clustering_of_orderEntries h
  · intro h
    induction sorts with
    | nil => exact ⟨[], rfl⟩
    | cons s ss ih =>
      rw [List.forall_mem_cons] at h
      obtain ⟨entries, hentries⟩ := ih h.2
      simp only [Cql.orderEntries, if_neg (not_not.mpr h.1)]
      exact ⟨_, bind_eq_ok.mpr ⟨entries, hentries, rfl⟩⟩

theorem Cql.exists_assemble_iff {k : Cql.Keyspace} {q : Query} {l : Lowered String Cql.Native} :
    (∃ s, Cql.assemble k q l = .ok s) ↔ ∀ s ∈ q.sorts, s.field ∈ k.clustering := by
  rw [← Cql.exists_orderEntries_iff q.entity]
  constructor
  · rintro ⟨s, h⟩
    obtain ⟨order, horder, -⟩ := bind_eq_ok.mp h
    obtain ⟨entries, hentries, -⟩ := bind_eq_ok.mp horder
    exact ⟨entries, hentries⟩
  · rintro ⟨entries, hentries⟩
    exact ⟨_, bind_eq_ok.mpr ⟨_, bind_eq_ok.mpr ⟨entries, hentries, rfl⟩, rfl⟩⟩

theorem Document.checkNames_eq_ok_iff {names : List String} :
    Document.checkNames names = .ok () ↔ ∀ name ∈ names, Document.isDollar name = false := by
  induction names with
  | nil => exact iff_of_true rfl (List.forall_mem_nil _)
  | cons name names ih =>
    rw [List.forall_mem_cons, ← ih, Document.checkNames, Document.identifier]
    split
    · next h => simp [h, Bind.bind, Except.bind]
    · next h => simp [h, Bind.bind, Except.bind]

theorem Document.exists_assemble_iff {config : CompilerConfig} {q : Query} {l : Lowered Json Json} :
    (∃ s, Document.assemble config q l = .ok s) ↔
      ∀ name ∈ q.projection ++ q.sorts.map (·.field), Document.isDollar name = false := by
  rw [← Document.checkNames_eq_ok_iff]
  constructor
  · rintro ⟨s, h⟩
    obtain ⟨_, hnames, -⟩ := bind_eq_ok.mp h
    exact hnames
  · intro hnames
    exact ⟨_, bind_eq_ok.mpr ⟨(), hnames, rfl⟩⟩

theorem Search.exists_assemble_iff {index : Search.Index} {config : CompilerConfig} {q : Query}
    {l : Lowered Json Json} : (∃ s, Search.assemble index config q l = .ok s) ↔
      Search.fits config.maxResultWindow q.skip
        (Search.size config.maxResultWindow q.skip q.limit) = true := by
  unfold Search.assemble
  dsimp only
  split
  · next h => exact iff_of_true ⟨_, rfl⟩ h
  · next h =>
    refine iff_of_false ?_ h
    rintro ⟨s, hs⟩
    cases hs

theorem Aql.exists_assemble_iff {config : CompilerConfig} {q : Query} {l : Lowered String Json} :
    (∃ s, Aql.assemble config q l = .ok s) ↔ ∃ l', Aql.bindKeys l = .ok l' := by
  constructor
  · rintro ⟨s, h⟩
    obtain ⟨l', hl', -⟩ := bind_eq_ok.mp h
    exact ⟨l', hl'⟩
  · rintro ⟨l', hl'⟩
    exact ⟨_, bind_eq_ok.mpr ⟨l', hl', rfl⟩⟩

/-! ## Names in every store -/

section Stores

variable (config : CompilerConfig) (q : Query)

theorem Sql.checksNames (schema : Option String) :
    (Sql.dialect (Except QueryError) schema).ChecksNames config q "" True :=
  Dialect.checksNames (fun _ => lowered_unnamed_iff (Sql.entityBlind schema)) fun _ =>
    iff_of_true ⟨_, rfl⟩ ⟨trivial, _, rfl⟩

theorem Cql.exists_assemble_unnamed_iff {k : Cql.Keyspace} (entity : String)
    (l : Lowered String Cql.Native) : (∃ s, Cql.assemble k q l = .ok s) ↔
      (∀ s ∈ q.sorts, s.field ∈ k.clustering) ∧
        ∃ s, Cql.assemble k (q.unnamed entity) l = .ok s := by
  have hunnamed : ∃ s, Cql.assemble k (q.unnamed entity) l = .ok s :=
    Cql.exists_assemble_iff.mpr (List.forall_mem_nil _)
  rw [Cql.exists_assemble_iff, and_iff_left hunnamed]

/-- A schema may know the types of one entity only, which therefore stays. -/
theorem Cql.checksNames (k : Cql.Keyspace) (schema : Option (SchemaLookup (Except QueryError))) :
    (Cql.dialect k schema).ChecksNames config q q.entity
      (∀ s ∈ q.sorts, s.field ∈ k.clustering) :=
  Dialect.checksNames (fun _ => Eq.congr_left (lowered_congr rfl rfl rfl rfl rfl rfl)) fun l =>
    Cql.exists_assemble_unnamed_iff q q.entity l

theorem Cql.checksNames_none (k : Cql.Keyspace) :
    (Cql.dialect k (none : Option (SchemaLookup (Except QueryError)))).ChecksNames config q ""
      (∀ s ∈ q.sorts, s.field ∈ k.clustering) :=
  Dialect.checksNames (fun _ => lowered_unnamed_iff (Cql.entityBlind k)) fun l =>
    Cql.exists_assemble_unnamed_iff q "" l

theorem Document.checksNames : (Document.dialect (Except QueryError)).ChecksNames config q ""
    (∀ name ∈ q.projection ++ q.sorts.map (·.field), Document.isDollar name = false) := by
  refine Dialect.checksNames (fun _ => lowered_unnamed_iff Document.entityBlind) fun l => ?_
  have hunnamed : ∃ s, Document.assemble config (q.unnamed "") l = .ok s :=
    Document.exists_assemble_iff.mpr (List.forall_mem_nil _)
  exact Document.exists_assemble_iff.trans (and_iff_left hunnamed).symm

theorem Search.checksNames (index : Search.Index) :
    (Search.dialect (Except QueryError) index).ChecksNames config q "" True := by
  refine Dialect.checksNames (fun _ => lowered_unnamed_iff (Search.entityBlind index)) fun l => ?_
  rw [true_and]
  show (∃ s, Search.assemble index config q l = .ok s) ↔
    ∃ s, Search.assemble index config (q.unnamed "") l = .ok s
  rw [Search.exists_assemble_iff, Search.exists_assemble_iff]
  exact Iff.rfl

theorem Aql.checksNames : (Aql.dialect (Except QueryError)).ChecksNames config q "" True := by
  refine Dialect.checksNames (fun _ => lowered_unnamed_iff Aql.entityBlind) fun l => ?_
  rw [true_and]
  show (∃ s, Aql.assemble config q l = .ok s) ↔ ∃ s, Aql.assemble config (q.unnamed "") l = .ok s
  rw [Aql.exists_assemble_iff, Aql.exists_assemble_iff]

end Stores

/-- **A predicate without a field is refused by every store, wherever it stands, and a query without
an entity is refused by its builder. For the other names of a query it makes no difference whether
they are there: SQL, searches and AQL compile a query exactly if they compile it with an empty
entity, no projection and no order; commands, if besides no name starts with a dollar sign; and CQL,
if besides the order is by clustering columns.** -/
theorem predicates_must_name_fields (config : CompilerConfig) (q : Query) :
    (∀ schema, (Sql.dialect (Except QueryError) schema).ChecksNames config q "" True) ∧
      (∀ k (schema : Option (SchemaLookup (Except QueryError))),
        (Cql.dialect k schema).ChecksNames config q q.entity
          (∀ s ∈ q.sorts, s.field ∈ k.clustering)) ∧
      (∀ k, (Cql.dialect k (none : Option (SchemaLookup (Except QueryError)))).ChecksNames config q
        "" (∀ s ∈ q.sorts, s.field ∈ k.clustering)) ∧
      (Document.dialect (Except QueryError)).ChecksNames config q ""
        (∀ name ∈ q.projection ++ q.sorts.map (·.field), Document.isDollar name = false) ∧
      (∀ index, (Search.dialect (Except QueryError) index).ChecksNames config q "" True) ∧
      (Aql.dialect (Except QueryError)).ChecksNames config q "" True ∧
      ((⟨q⟩ : QueryBuilder).build = .error (.invalid .emptyEntity) ↔ q.entity = "") := by
  refine ⟨Sql.checksNames config q, Cql.checksNames config q, Cql.checksNames_none config q,
    Document.checksNames config q, Search.checksNames config q, Aql.checksNames config q, ?_⟩
  rw [QueryBuilder.build]
  split
  · next h => exact iff_of_true rfl (String.isEmpty_iff.mp h)
  · next h =>
    refine iff_of_false ?_ fun hentity => h (String.isEmpty_iff.mpr hentity)
    rintro ⟨⟩

/-- A query by a field without a name. -/
def fieldlessQuery : Query where
  entity := "person"
  condition := some (.join .and [.predicate .oneOf ⟨"", .list [.text "k1"]⟩])

/-- The predicate is refused where it becomes a key lookup, and where it becomes a filter. -/
theorem fieldless_predicate_refused :
    (∃ c ∈ fieldlessQuery.condition, ∃ a ∈ c.formula.atoms, a.field = "") ∧
      (∃ e, (Aql.dialect (Except QueryError)).compile { idField := "" } fieldlessQuery = .error e) ∧
      ∃ e, (Document.dialect (Except QueryError)).compile {} fieldlessQuery = .error e := by
  have hfield : ∃ c ∈ fieldlessQuery.condition, ∃ a ∈ c.formula.atoms, a.field = "" :=
    ⟨_, rfl, ⟨.oneOf, "", .list [.text "k1"]⟩, List.mem_singleton_self _, rfl⟩
  obtain ⟨-, -, -, -, -, haql, -⟩ := predicates_must_name_fields { idField := "" } fieldlessQuery
  obtain ⟨-, -, -, hdocument, -⟩ := predicates_must_name_fields {} fieldlessQuery
  exact ⟨hfield, haql.fields hfield, hdocument.fields hfield⟩

/-- A query without any names, which is not built but read. -/
def namelessQuery : Query where
  entity := ""
  projection := [""]
  sorts := [⟨"", .ascending⟩]

/-- **Every store compiles a query whose entity, projection and order have empty names, and a
builder finishes one that is empty in all but the entity.** -/
theorem empty_names_compile :
    (∃ q, (((QueryBuilder.start "person").select [""]).sort ⟨"", .ascending⟩).build = .ok q ∧
        ((Sql.dialect (Except QueryError) none).compile {} q).map (·.statement) =
          .ok "SELECT \"\" FROM person ORDER BY \"\" ASC") ∧
      ((Sql.dialect (Except QueryError) none).compile {} namelessQuery).map (·.statement) =
        .ok "SELECT \"\" FROM \"\" ORDER BY \"\" ASC" ∧
      ((Cql.dialect ⟨"shop", [""], false⟩
          (none : Option (SchemaLookup (Except QueryError)))).compile {} namelessQuery).map
          (·.statement) = .ok "SELECT \"\" FROM shop.\"\" ORDER BY \"\" ASC" ∧
      (∃ s, (Document.dialect (Except QueryError)).compile {} namelessQuery = .ok s) ∧
      (∃ s, (Search.dialect (Except QueryError) ⟨"catalog", "kind"⟩).compile {} namelessQuery =
        .ok s) ∧
      ((Aql.dialect (Except QueryError)).compile {} namelessQuery).map (·.statement) =
        .ok "FOR d IN \x60\x60 SORT d.\x60\x60 ASC RETURN KEEP(d, \"\")" := by
  refine ⟨⟨{ namelessQuery with entity := "person" }, rfl, ?_⟩, ?_, ?_, ⟨_, rfl⟩, ⟨_, rfl⟩, ?_⟩
  · decide +kernel
  · decide +kernel
  · decide +kernel
  · decide +kernel

end PortableQuery
