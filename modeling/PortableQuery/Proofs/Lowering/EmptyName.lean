import PortableQuery.Proofs.Lowering.Shape

set_option autoImplicit false

/-!
# Names of a query

A query has names in four places: its entity, its projection, its order, and the predicates of its
condition. The walk looks at those of predicates only.
-/

namespace PortableQuery

/-- Every predicate of the condition names its field. -/
def Condition.NamesFields (c : Condition) : Prop := ∀ a ∈ c.formula.atoms, a.field ≠ ""

/-- The query with another entity, without a projection and without an order. -/
def Query.unnamed (q : Query) (entity : String) : Query :=
  { q with entity := entity, projection := [], sorts := [] }

namespace Dialect

variable {F N : Type} {d : Dialect (Except QueryError) F N} {config : CompilerConfig}
  {entity entity' : String}

/-! ## Fields of predicates -/

/-- **What is compiled has no predicate without a field, neither in its filter nor among its
keys.** -/
theorem namesFields_of_compile {q : Query} {s : Statement F N} (h : d.compile config q = .ok s) :
    ∀ c ∈ q.condition, c.NamesFields :=
  fun c hc _ ha => (shaped_of_compile h c hc _ (Condition.mem_preorder_of_mem_atoms ha)).1

/-! ## Entities -/

variable (d) in
/-- Values are converted in the same way for every entity. -/
def EntityBlind : Prop :=
  ∀ ⦃entity entity' field : String⦄ ⦃v : Value⦄ ⦃n : N⦄,
    d.toNative ⟨entity, field⟩ v = .ok n → d.toNative ⟨entity', field⟩ v = .ok n

variable (hd : d.EntityBlind)

include hd

theorem Converts.of_entity {field : String} {o : Operator} {v : Value} {x : Operand N}
    (h : d.Converts ⟨entity, field⟩ o v x) : d.Converts ⟨entity', field⟩ o v x := by
  cases h with
  | range hl hu => exact .range (hd hl) (hd hu)
  | choice hne hs hns => exact .choice hne hs (hns.imp fun _ _ hn => hd hn)
  | pattern hn => exact .pattern (hd hn)
  | value hb hi hl hn => exact .value hb hi hl (hd hn)

theorem predicate_of_entity {o : Operator} {e : Element} {p : Predicate N}
    (h : d.predicate config entity o e = .ok p) : d.predicate config entity' o e = .ok p := by
  obtain ⟨hname, x, hx, rfl⟩ := converts_of_predicate_eq_ok h
  rw [predicate, if_neg (by simpa using hname)]
  exact bind_eq_ok.mpr ⟨x, (hx.of_entity hd).operand_eq_ok, rfl⟩

theorem lowerCondition_of_entity {c : Condition} {b b' : Binder N} {f : F}
    (h : d.lowerCondition config entity c b = .ok (f, b')) :
    d.lowerCondition config entity' c b = .ok (f, b') := by
  refine lowerCondition_induct
    (R := fun c b f b' => d.lowerCondition config entity' c b = .ok (f, b')) ?_ ?_ ?_ h
  · intro o e b p f b' hp hlower
    exact bind_eq_ok.mpr ⟨p, predicate_of_entity hd hp, (ofExcept_eq _).trans hlower⟩
  · intro connective cs b fs b' f hne hcs hjoin
    simp only [lowerCondition]
    rw [if_neg (by simpa using hne)]
    exact bind_eq_ok.mpr ⟨_, lowerAll_of_chain hcs,
      bind_eq_ok.mpr ⟨f, (ofExcept_eq _).trans hjoin, rfl⟩⟩
  · intro c b f b' g hc hnegate
    exact bind_eq_ok.mpr ⟨_, hc, bind_eq_ok.mpr ⟨g, (ofExcept_eq _).trans hnegate, rfl⟩⟩

theorem keys_of_entity {c : Condition} {ns : List N} (h : d.keys config entity c = .ok ns) :
    d.keys config entity' c = .ok ns := by
  cases c with
  | join | not => cases h
  | predicate o e =>
    simp only [keys] at h ⊢
    split at h
    · cases h
    · next hnull =>
      obtain ⟨p, hp, h⟩ := bind_eq_ok.mp h
      rw [if_neg hnull]
      exact bind_eq_ok.mpr ⟨p, predicate_of_entity hd hp, h⟩

theorem lowerRest_of_entity {rest : List Condition} {b : Binder N} {r : Option F × Binder N}
    (h : d.lowerRest config entity rest b = .ok r) :
    d.lowerRest config entity' rest b = .ok r := by
  rw [lowerRest_eq] at h ⊢
  cases hrest : residual rest with
  | none =>
    rw [hrest] at h
    exact h
  | some c =>
    rw [hrest] at h
    obtain ⟨r, hr, rfl⟩ := map_eq_ok.mp h
    exact map_eq_ok.mpr ⟨r, lowerCondition_of_entity hd hr, rfl⟩

theorem lowerRoot_of_entity {c : Condition} {l : Lowered F N}
    (h : d.lowerRoot config entity c = .ok l) : d.lowerRoot config entity' c = .ok l := by
  simp only [lowerRoot] at h ⊢
  split at h
  · obtain ⟨ns, hns, h⟩ := bind_eq_ok.mp h
    obtain ⟨r, hr, h⟩ := bind_eq_ok.mp h
    exact bind_eq_ok.mpr ⟨ns, keys_of_entity hd hns,
      bind_eq_ok.mpr ⟨r, lowerRest_of_entity hd hr, h⟩⟩
  · obtain ⟨r, hr, h⟩ := bind_eq_ok.mp h
    exact bind_eq_ok.mpr ⟨r, lowerCondition_of_entity hd hr, h⟩

/-- **The condition of a query is lowered in the same way for every entity.** -/
theorem lowered_of_entity {q q' : Query} (hpaging : d.badPaging q = d.badPaging q')
    (hcondition : q.condition = q'.condition) {l : Lowered F N}
    (h : d.lowered config q = .ok l) : d.lowered config q' = .ok l := by
  unfold lowered at h ⊢
  rw [← hpaging, ← hcondition]
  split at h
  · cases h
  · split at h
    · exact h
    · split at h
      · cases h
      · exact lowerRoot_of_entity hd h

theorem lowered_unnamed_iff {q : Query} {l : Lowered F N} :
    d.lowered config q = .ok l ↔ d.lowered config (q.unnamed entity) = .ok l := by
  have hpaging : d.badPaging q = d.badPaging (q.unnamed entity) := rfl
  have hcondition : q.condition = (q.unnamed entity).condition := rfl
  exact ⟨lowered_of_entity hd hpaging hcondition,
    lowered_of_entity hd hpaging.symm hcondition.symm⟩

omit hd

/-! ## All names -/

variable (d config) in
/-- What becomes of the names of a query: whether it compiles does not depend on the entity, the
projection and the order, as long as these are allowed. -/
structure ChecksNames (q : Query) (entity : String) (allowed : Prop) : Prop where
  /-- A predicate without a field is refused, wherever it stands. -/
  fields (h : ∃ c ∈ q.condition, ∃ a ∈ c.formula.atoms, a.field = "") :
    ∃ e, d.compile config q = .error e
  /-- Other names are refused if they are not allowed, and for nothing else. -/
  others : (∃ s, d.compile config q = .ok s) ↔
    allowed ∧ ∃ s, d.compile config (q.unnamed entity) = .ok s

/-- **What becomes of names follows from how a lowered condition is put into a statement.** -/
theorem checksNames {q : Query} {allowed : Prop}
    (hlowered : ∀ l, d.lowered config q = .ok l ↔ d.lowered config (q.unnamed entity) = .ok l)
    (hassemble : ∀ l, (∃ s, d.assemble config q l = .ok s) ↔
      allowed ∧ ∃ s, d.assemble config (q.unnamed entity) l = .ok s) :
    d.ChecksNames config q entity allowed where
  fields := by
    rintro ⟨c, hc, a, ha, hfield⟩
    cases h : d.compile config q with
    | error e => exact ⟨e, rfl⟩
    | ok s => exact absurd hfield (namesFields_of_compile h c hc a ha)
  others := by
    simp only [compile_eq_bind, bind_eq_ok]
    constructor
    · rintro ⟨s, l, hl, hs⟩
      obtain ⟨hallowed, s', hs'⟩ := (hassemble l).mp ⟨s, hs⟩
      exact ⟨hallowed, s', l, (hlowered l).mp hl, hs'⟩
    · rintro ⟨hallowed, s', l, hl, hs'⟩
      obtain ⟨s, hs⟩ := (hassemble l).mpr ⟨hallowed, s', hs'⟩
      exact ⟨s, l, (hlowered l).mpr hl, hs⟩

end Dialect

end PortableQuery
