import PortableQuery.Proofs.Lowering.Diversion
import PortableQuery.Proofs.Search.Reading
import PortableQuery.Search.Body

set_option autoImplicit false

/-!
# Searches select the documents of their entity

* **`Search.selects_lowerCondition`**: a lowered condition matches what the condition holds of;
* **`Search.matches_query`**: the query of a compiled body matches the documents of the entity that
  the condition holds of;
* **`Search.selection`**: keys, filters and bodies select what they should.
-/

namespace PortableQuery.Search

variable {config : CompilerConfig} {entity : String}

/-! ## Predicates -/

theorem toPlain_of_toNative {index : Index} {scope : Scope} {v : Value} {j : Json}
    (h : (dialect (Except QueryError) index).toNative scope v = .ok j) :
    v.toPlain scope = .ok j := by
  simpa only [dialect, ofExcept_eq] using h

theorem path_eq (config : CompilerConfig) (name : String) :
    path config name = if name = config.idField then "_id" else name := by
  simp only [path, CompilerConfig.isIdField_iff]
  rfl

theorem compares_iff {R : Operator → Json → Json → Prop} {o : Operator} {x : Json} {scope : Scope}
    {v : Value} {j : Json} (h : v.toPlain scope = .ok j) : Compares R o x v ↔ R o x j := by
  simp [Compares, Value.plain?_eq_some h]

theorem exists_compares_iff {R : Operator → Json → Json → Prop} {o : Operator} {x : Json}
    {scope : Scope} {vs : List Value} {js : List Json}
    (h : List.Forall₂ (fun v j => v.toPlain scope = .ok j) vs js) :
    (∃ v ∈ vs, Compares R o x v) ↔ ∃ j ∈ js, R o x j := by
  induction h with
  | nil => simp
  | cons hv _ ih => simp [compares_iff hv, ih]

theorem boundOperator?_of_boundName? {o : Operator} {bound : String}
    (h : boundName? o = some bound) : boundOperator? bound = some o := by
  cases o <;> cases h <;> rfl

theorem lowerPredicate_single {o : Operator} {name path : String} {n f : Json} {b b' : Binder Json}
    (hl : o ≠ .like) (h : lowerPredicate ⟨o, name, path, .single n⟩ b = .ok (f, b')) :
    (o = .equals ∧ f = leaf "term" path n) ∨
      ∃ bound, boundOperator? bound = some o ∧ f = leaf "range" path (.single bound n) := by
  unfold lowerPredicate at h
  dsimp only at h
  split at h
  · cases h
  · next value _ hvalue =>
    obtain rfl := Operand.single.inj hvalue
    obtain ⟨_, _, h⟩ := bind_eq_ok.mp h
    obtain ⟨rfl, -⟩ := Prod.mk.inj (pure_eq_ok.mp h)
    exact .inl ⟨rfl, rfl⟩
  · next hvalues => cases hvalues
  · exact absurd rfl hl
  · next hrange => cases hrange
  · next o value _ _ _ _ hvalue =>
    obtain rfl := Operand.single.inj hvalue
    split at h
    · next bound hbound =>
      obtain ⟨_, _, h⟩ := bind_eq_ok.mp h
      obtain ⟨rfl, -⟩ := Prod.mk.inj (pure_eq_ok.mp h)
      exact .inr ⟨bound, boundOperator?_of_boundName? hbound, rfl⟩
    · cases h
  · cases h

/-- **A lowered predicate matches what satisfies the predicate.** -/
theorem exists_leaf {index : Index} {scope : Scope} {o : Operator} {v : Value} {x : Operand Json}
    {name path : String} {f : Json} {b b' : Binder Json}
    (hx : (dialect (Except QueryError) index).Converts scope o v x)
    (h : lowerPredicate ⟨o, name, path, x⟩ b = .ok (f, b')) :
    ∃ g, read? f = some (.atom g) ∧
      ∀ R d, g.Matches R d ↔ Satisfies R (d.terms path) o v := by
  cases hx with
  | @range lower upper l u hl hu =>
    obtain ⟨_, _, h⟩ := bind_eq_ok.mp h
    obtain ⟨rfl, -⟩ := Prod.mk.inj (pure_eq_ok.mp h)
    refine ⟨.range path [(.greaterOrEqual, l), (.lessOrEqual, u)], rfl, fun R d => ?_⟩
    simp [Leaf.Matches, Satisfies, compares_iff (toPlain_of_toNative hl),
      compares_iff (toPlain_of_toNative hu)]
  | @choice items ns _ _ hns =>
    obtain ⟨_, _, h⟩ := bind_eq_ok.mp h
    obtain ⟨rfl, -⟩ := Prod.mk.inj (pure_eq_ok.mp h)
    refine ⟨.terms path ns, rfl, fun R d => ?_⟩
    simp [Leaf.Matches, Satisfies, exists_compares_iff (hns.imp fun _ _ => toPlain_of_toNative)]
  | @pattern s n hn =>
    obtain rfl : .string s = n := Except.ok.inj (toPlain_of_toNative hn)
    obtain ⟨_, _, h⟩ := bind_eq_ok.mp h
    obtain ⟨rfl, -⟩ := Prod.mk.inj (pure_eq_ok.mp h)
    refine ⟨.wildcard path (wildcardOfLike s), rfl, fun R d => ?_⟩
    simp [Leaf.Matches, Satisfies, wildcardOfLike, matches_wildcardChars]
  | @value _ _ n hb hi hl hn =>
    have hsatisfies (R : Operator → Json → Json → Prop) (d : Doc) :
        Satisfies R (d.terms path) o v ↔ ∃ x ∈ d.terms path, R o x n := by
      have hcases : Satisfies R (d.terms path) o v ↔ ∃ x ∈ d.terms path, Compares R o x v := by
        cases o <;> first | contradiction | exact Iff.rfl
      rw [hcases]
      simp only [compares_iff (toPlain_of_toNative hn)]
    obtain ⟨rfl, rfl⟩ | ⟨bound, hbound, rfl⟩ := lowerPredicate_single hl h
    · exact ⟨.term path n, rfl, fun R d => (hsatisfies R d).symm⟩
    · refine ⟨.range path [(o, n)], ?_, fun R d => ?_⟩
      · simp [leaf, Json.single, read?, leaf?, bounds?, bound?, hbound]
      · rw [hsatisfies]
        simp [Leaf.Matches]

/-! ## Conditions -/

/-- The query can be read, and matches what the condition holds of. -/
def Selects (config : CompilerConfig) (c : Condition) (f : Json) : Prop :=
  ∃ g, read? f = some g ∧
    ∀ R d, g.Holds (Leaf.Matches R d) ↔ c.formula.Holds (d.Satisfies R config)

theorem read?_join (c : Connective) {js : List Json} {fs : List (Formula Leaf)}
    (h : readAll? js = some fs) : read? (join c js) = some (.join .and [.join c fs]) := by
  cases c <;> simp [join, Json.single, read?, readOccurrences?, h] <;> rfl

theorem read?_negate {j : Json} {f : Formula Leaf} (h : read? j = some f) :
    read? (negate j) = some (.join .and [.not (.join .or [f])]) := by
  simp [negate, Json.single, read?, readOccurrences?, readAll?, h]
  rfl

theorem read?_filter {js : List Json} {fs : List (Formula Leaf)} (h : readAll? js = some fs) :
    read? (.single "bool" (.single "filter" (.array js))) =
      some (.join .and [.join .and fs]) := by
  simp [Json.single, read?, readOccurrences?, h]
  rfl

theorem selects_predicate {index : Index} {o : Operator} {e : Element} {p : Predicate Json}
    {f : Json} {b b' : Binder Json}
    (hp : (dialect (Except QueryError) index).predicate config entity o e = .ok p)
    (hl : lowerPredicate p b = .ok (f, b')) : Selects config (.predicate o e) f := by
  obtain ⟨-, x, hx, rfl⟩ := Dialect.converts_of_predicate_eq_ok hp
  obtain ⟨g, hg, hmatches⟩ := exists_leaf hx hl
  refine ⟨.atom g, hg, fun R d => ?_⟩
  have hpath : (dialect (Except QueryError) index).field config e.name =
      if e.name = config.idField then "_id" else e.name := path_eq config e.name
  rw [Formula.holds_atom, hmatches, hpath]
  rfl

/-- **A lowered condition matches what the condition holds of.** -/
theorem selects_lowerCondition {index : Index} {c : Condition} {b b' : Binder Json} {f : Json}
    (h : (dialect (Except QueryError) index).lowerCondition config entity c b = .ok (f, b')) :
    Selects config c f := by
  refine Dialect.lowerCondition_induct (R := fun c _ f _ => Selects config c f) ?_ ?_ ?_ h
  · exact fun o e b p f b' hp hl => selects_predicate hp hl
  · intro c cs b fs b' f _ hcs hf
    obtain rfl := Except.ok.inj hf
    obtain ⟨gs, hgs, hholds⟩ := hcs.exists_forall₂
    refine ⟨_, read?_join c (readAll?_eq_some hgs), fun R d => ?_⟩
    rw [Formula.holds_and, List.forall_mem_singleton, Condition.formula_join]
    refine Formula.holds_join_congr c (List.forall₂_map_right_iff.mpr (List.Forall₂.flip ?_))
    exact hholds.imp fun _ _ h => h R d
  · intro c b f b' g hc hg
    obtain rfl := Except.ok.inj hg
    obtain ⟨r, hr, hholds⟩ := hc
    refine ⟨_, read?_negate hr, fun R d => ?_⟩
    simp [hholds]

/-! ## Bodies -/

theorem holds_of_wants {R : Operator → Json → Json → Prop} {d : Doc} {k : Condition} {v : Value}
    (h : k.Wants config.idField v) :
    k.formula.Holds (d.Satisfies R config) ↔ Satisfies R [d.id] .oneOf v := by
  have hterms : d.terms (if config.idField = config.idField then "_id" else config.idField) =
      [d.id] := by
    rw [if_pos rfl]
    rfl
  cases h with
  | equals v =>
    rw [Condition.formula_predicate, Formula.holds_atom, Doc.Satisfies, hterms]
    simp [Satisfies]
  | oneOf v => rw [Condition.formula_predicate, Formula.holds_atom, Doc.Satisfies, hterms]

theorem satisfies_keys {index : Index} {R : Operator → Json → Json → Prop} {id : Json}
    {scope : Scope} {keys : Option Value} {ns : List Json}
    (h : (dialect (Except QueryError) index).KeysConverted scope keys ns) :
    (∀ v ∈ keys, Satisfies R [id] .oneOf v) ↔ ns = [] ∨ ∃ n ∈ ns, R .equals id n := by
  cases h with
  | none => simp
  | @some items ns hne hns =>
    have hns_ne : ns ≠ [] := by
      rintro rfl
      exact hne (List.forall₂_nil_right_iff.mp hns)
    simp [Satisfies, hns_ne, exists_compares_iff (hns.imp fun _ _ => toPlain_of_toNative)]

theorem exists_rest {index : Index} {rest : Option Condition} {filter : Option Json}
    {ps : List (Parameter Json)}
    (h : (dialect (Except QueryError) index).RestLowered config entity rest filter ps) :
    ∃ r, Option.Rel (fun f g => read? f = some g) filter r ∧ ∀ R d,
      (∀ g ∈ r, g.Holds (Leaf.Matches R d)) ↔
        ∀ c ∈ rest, c.formula.Holds (d.Satisfies R config) := by
  cases h with
  | none => exact ⟨none, .none, by simp⟩
  | some hc =>
    obtain ⟨g, hg, hholds⟩ := selects_lowerCondition hc
    exact ⟨some g, .some hg, fun R d => by simp [hholds]⟩

/-- The clauses are the entity, the keys, if there are any, and the filter, if there is one. -/
theorem readAll?_clauses {index : Index} {q : Query} {l : Lowered Json Json}
    {r : Option (Formula Leaf)} (h : Option.Rel (fun f g => read? f = some g) l.filter r) :
    readAll? (clauses index q l) =
      some (.atom (.term index.discriminator (.string q.entity)) ::
        ((if l.keyLookup.isEmpty then [] else [.atom (.ids l.keyLookup)]) ++ r.toList)) := by
  have hentity : read? (leaf "term" index.discriminator (.string q.entity)) =
      some (.atom (.term index.discriminator (.string q.entity))) := rfl
  have hids : read? (.single "ids" (.single "values" (.array l.keyLookup))) =
      some (.atom (.ids l.keyLookup)) := rfl
  refine readAll?_eq_some (.cons hentity (List.rel_append ?_ ?_))
  · split
    · exact .nil
    · exact .cons hids .nil
  · generalize l.filter = filter at h
    cases h with
    | none => exact .nil
    | some hf => exact .cons hf .nil

theorem holds_clauses (R : Operator → Json → Json → Prop) (d : Doc) (path : String) (name : Json)
    (ids : List Json) (r : Option (Formula Leaf)) :
    (Formula.join .and [.join .and (.atom (.term path name) ::
        ((if ids.isEmpty then [] else [.atom (.ids ids)]) ++ r.toList))]).Holds (Leaf.Matches R d) ↔
      (∃ x ∈ d.terms path, R .equals x name) ∧ (ids = [] ∨ ∃ i ∈ ids, R .equals d.id i) ∧
        ∀ g ∈ r, g.Holds (Leaf.Matches R d) := by
  have hids : (∀ g ∈ if ids.isEmpty then [] else [.atom (.ids ids)],
      Formula.Holds (Leaf.Matches R d) g) ↔ ids = [] ∨ ∃ i ∈ ids, R .equals d.id i := by
    cases ids with
    | nil => simp
    | cons i ids => simp [Leaf.Matches]
  rw [Formula.holds_and, List.forall_mem_singleton, Formula.holds_and, List.forall_mem_cons,
    List.forall_mem_append, hids]
  simp only [Formula.holds_atom, Leaf.Matches, Option.mem_toList, Option.mem_def]

/-- **The query of a compiled body matches the documents of the entity that the condition holds
of.** -/
theorem matches_query {index : Index} {q : Query} {s : Statement Json Json}
    (h : (dialect (Except QueryError) index).compile config q = .ok s) :
    ∃ query, s.statement.member? "query" = some query ∧ ∃ g, read? query = some g ∧ ∀ R d,
      g.Holds (Leaf.Matches R d) ↔
        (∃ x ∈ d.terms index.discriminator, R .equals x (.string q.entity)) ∧
          ∀ c ∈ q.condition, c.formula.Holds (d.Satisfies R config) := by
  obtain ⟨l, hl, hs⟩ := Dialect.exists_lowering_of_compile h
  obtain ⟨keys, rest, hdivided, hkeys, hrest⟩ := Dialect.exists_divided rfl hl
  obtain ⟨r, hr, hholds⟩ := exists_rest hrest
  have hmember : s.statement.member? "query" =
      some (.single "bool" (.single "filter" (.array (clauses index q l)))) := by
    change assemble index config q l = .ok s at hs
    unfold assemble at hs
    dsimp only at hs
    split at hs
    · obtain rfl := Except.ok.inj hs
      rfl
    · cases hs
  refine ⟨_, hmember, _, read?_filter (readAll?_clauses hr), fun R d => ?_⟩
  rw [holds_clauses, ← satisfies_keys hkeys, hholds,
    hdivided.holds_iff fun _ _ => holds_of_wants]

/-- A query by key whose condition asks for another entity. -/
def hostileQuery : Query where
  entity := "Person"
  condition := some (.join .and [
    .not (.join .or [.predicate .equals ⟨"kind", .text "Order"⟩,
      .predicate .like ⟨"name", .text "*%\\"⟩]),
    .predicate .oneOf ⟨"id", .list [.text "p1", .int 2]⟩,
    .join .or [.predicate .between ⟨"age", .list [.int 1, .int 2]⟩],
    .predicate .equals ⟨"id", .text "p1"⟩])

theorem matches_query_hostileQuery :
    ∃ s, (dialect (Except QueryError) ⟨"catalog", "kind"⟩).compile { idField := "id" }
        hostileQuery = .ok s ∧
      ∃ query, s.statement.member? "query" = some query ∧ ∃ g, read? query = some g ∧ ∀ R d,
        g.Holds (Leaf.Matches R d) ↔
          (∃ x ∈ d.terms "kind", R .equals x (.string hostileQuery.entity)) ∧
            ∀ c ∈ hostileQuery.condition, c.formula.Holds (d.Satisfies R { idField := "id" }) :=
  ⟨_, rfl, @matches_query _ ⟨"catalog", "kind"⟩ _ _ rfl⟩

/-! ## Keys beside filters -/

/-- The filter matches the document. -/
def Passes (R : Operator → Json → Json → Prop) (filter : Json) (d : Doc) : Prop :=
  ∃ g, read? filter = some g ∧ g.Holds (Leaf.Matches R d)

/-- The query of the body matches the document. -/
def Finds (R : Operator → Json → Json → Prop) (s : Statement Json Json) (d : Doc) : Prop :=
  ∃ query, s.statement.member? "query" = some query ∧ Passes R query d

/-- What a body holds behind its query: the fields, the order and the window. -/
def frame : Json → List (Named Json)
  | .object (_ :: members) => members
  | _ => []

/-- What a query asks for besides its condition. -/
def frameOf (config : CompilerConfig) (q : Query) : List (Named Json) :=
  sourceMember config q.projection ++ sortMember config q.sorts ++ fromMember q.skip ++
    [⟨"size", .int (size config.maxResultWindow q.skip q.limit).toNat⟩]

variable {R : Operator → Json → Json → Prop} {d : Doc}

theorem satisfies_equals_singleton (field : String) (v : Value) :
    d.Satisfies R config ⟨.equals, field, v⟩ ↔
      d.Satisfies R config ⟨.oneOf, field, .list [v]⟩ := by
  simp [Doc.Satisfies, Search.Satisfies]

theorem satisfies_idField_iff {index : Index} {scope : Scope} {items : List Value}
    {ns : List Json} (h : List.Forall₂
      (fun v n => (dialect (Except QueryError) index).toNative scope v = .ok n) items ns) :
    d.Satisfies R config ⟨.oneOf, config.idField, .list items⟩ ↔ ∃ n ∈ ns, R .equals d.id n := by
  have hwants : Condition.Wants config.idField
      (.predicate .oneOf ⟨config.idField, .list items⟩) (.list items) := .oneOf _
  have hlisted : Search.Satisfies R [d.id] .oneOf (.list items) ↔ ∃ n ∈ ns, R .equals d.id n := by
    simp [Search.Satisfies, exists_compares_iff (h.imp fun _ _ => toPlain_of_toNative)]
  rw [← hlisted]
  exact holds_of_wants hwants

theorem passes_lowerCondition {index : Index} {c : Condition} {b b' : Binder Json} {f : Json}
    (h : (dialect (Except QueryError) index).lowerCondition config entity c b = .ok (f, b')) :
    Passes R f d ↔ c.formula.Holds (d.Satisfies R config) := by
  obtain ⟨g, hg, hholds⟩ := selects_lowerCondition h
  simp [Passes, hg, hholds]

theorem eq_of_assemble {index : Index} {q : Query} {l : Lowered Json Json}
    {s : Statement Json Json} (h : assemble index config q l = .ok s) :
    s = l.finish q index.name (.object (⟨"query", .single "bool" (.single "filter"
      (.array (clauses index q l)))⟩ :: frameOf config q)) := by
  unfold assemble at h
  dsimp only at h
  split at h
  · simpa [frameOf] using (Except.ok.inj h).symm
  · cases h

theorem holds_filter_iff {filter : Option Json} {r : Option (Formula Leaf)}
    (h : Option.Rel (fun f g => read? f = some g) filter r) :
    (∀ g ∈ r, g.Holds (Leaf.Matches R d)) ↔ ∀ f ∈ filter, Passes R f d := by
  cases h with
  | none => simp
  | some hf => simp [Passes, hf]

/-- **An assembled body finds by its keys, if there are any, and its filter, if there is one.** -/
theorem finds_assemble {index : Index} {q : Query} {l : Lowered Json Json}
    {s : Statement Json Json} (hl : (dialect (Except QueryError) index).Lowering config q l)
    (hs : assemble index config q l = .ok s) :
    s.keyLookup = l.keyLookup ∧ s.filter = l.filter ∧ l.parameters <+: s.parameters ∧
      frame s.statement = frameOf config q ∧
      ∀ d, Finds R s d ↔ (∃ x ∈ d.terms index.discriminator, R .equals x (.string q.entity)) ∧
        (s.keyLookup = [] ∨ ∃ k ∈ s.keyLookup, R .equals d.id k) ∧
        ∀ f ∈ s.filter, Passes R f d := by
  obtain ⟨_, rest, -, -, hrest⟩ := Dialect.exists_divided rfl hl
  obtain ⟨r, hr, -⟩ := exists_rest hrest
  have hs := eq_of_assemble hs
  have hmember : s.statement.member? "query" =
      some (.single "bool" (.single "filter" (.array (clauses index q l)))) := by rw [hs]; rfl
  have hlookup : s.keyLookup = l.keyLookup := by rw [hs, Lowered.finish]
  have hfilter : s.filter = l.filter := by rw [hs, Lowered.finish]
  have hparameters : s.parameters = l.parameters := by rw [hs, Lowered.finish]
  refine ⟨hlookup, hfilter, hparameters ▸ List.prefix_rfl, ?_, fun d => ?_⟩
  · rw [hs]
    rfl
  · have hclauses : readAll? (clauses index q l) = some (.atom (.term index.discriminator
        (.string q.entity)) :: ((if l.keyLookup.isEmpty then [] else [.atom (.ids l.keyLookup)]) ++
          r.toList)) := readAll?_clauses hr
    have hread := read?_filter hclauses
    have hholds := holds_clauses R d index.discriminator (.string q.entity) l.keyLookup r
    rw [hlookup, hfilter, ← holds_filter_iff hr, ← hholds]
    simp [Finds, hmember, Passes, hread]

/-- **Keys, filters and bodies select what they should.** -/
def selection (index : Index) (R : Operator → Json → Json → Prop) :
    Selection (dialect (Except QueryError) index) Doc (List (Named Json)) where
  Satisfies config d := d.Satisfies R config
  Fetches key d := R .equals d.id key
  Passes _ := Passes R
  Belongs q d := ∃ x ∈ d.terms index.discriminator, R .equals x (.string q.entity)
  Selects := Finds R
  frame s := frame s.statement
  asked := frameOf
  satisfies_lookup _ _ _ := rfl
  asked_lookup _ _ _ := rfl
  satisfies_singleton _ _ field v := satisfies_equals_singleton field v
  satisfies_iff_fetches h _ := satisfies_idField_iff h
  passes_iff h _ _ _ := passes_lowerCondition h
  assembles := finds_assemble

end PortableQuery.Search
