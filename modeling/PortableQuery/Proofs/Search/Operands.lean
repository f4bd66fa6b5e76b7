import PortableQuery.Proofs.Lowering.Operands
import PortableQuery.Proofs.Search.Selection

set_option autoImplicit false

/-!
# Operands of search queries

A query holds its values itself, so what is bound is a record of them: the operands that are read
out of the filter of a body, from left to right, are its parameters.
-/

namespace PortableQuery.Search

variable {index : Index} {config : CompilerConfig} {entity : String}

/-! ## What is read -/

/-- The operands of a query on a single path, in order. -/
def Leaf.operands : Leaf → List Json
  | .term _ value => [value]
  | .terms _ values => values
  | .range _ bounds => bounds.map (·.2)
  | .wildcard _ w => [.string w]
  | .ids values => values

/-- The operands of a query, from left to right. -/
def operandsOf (g : Formula Leaf) : List Json := g.atoms.flatMap Leaf.operands

@[simp] theorem operandsOf_atom (l : Leaf) : operandsOf (.atom l) = l.operands := by
  rw [operandsOf, Formula.atoms_atom, List.flatMap_singleton]

@[simp] theorem operandsOf_join (c : Connective) (gs : List (Formula Leaf)) :
    operandsOf (.join c gs) = gs.flatMap operandsOf := by
  rw [operandsOf, Formula.atoms_join, List.flatMap_assoc]
  rfl

@[simp] theorem operandsOf_not (g : Formula Leaf) : operandsOf (.not g) = operandsOf g := rfl

/-- The query is read, and these are the values of its operands. -/
def Holds (us : List (Named Json)) (f : Json) : Prop :=
  ∃ g, read? f = some g ∧ operandsOf g = us.map (·.value)

/-! ## What is bound -/

/-- A value of an operator as it stands in a query: a pattern is a wildcard. -/
def termOf : Operator → Json → Json
  | .like, .string pattern => .string (wildcardOfLike pattern)
  | _, j => j

theorem bind_of_single {o : Operator} (hl : o ≠ .like) {name path : String} {n f : Json}
    {b b' : Binder Json} (h : lowerPredicate ⟨o, name, path, .single n⟩ b = .ok (f, b')) :
    ∃ x, b.bind name n = .ok (x, b') := by
  have hbind : ∃ g, lowerPredicate ⟨o, name, path, .single n⟩ b =
      (b.bind name n >>= fun r => pure (g, r.2)) := by
    cases o <;> cases n <;> first | contradiction | exact ⟨_, rfl⟩
  obtain ⟨g, hg⟩ := hbind
  obtain ⟨⟨x, b₁⟩, hx, h⟩ := bind_eq_ok.mp (hg ▸ h)
  obtain ⟨-, rfl⟩ := Prod.mk.inj (pure_eq_ok.mp h)
  exact ⟨x, hx⟩

/-- **A predicate binds its operands, and its query holds them.** -/
theorem binds_predicate {o : Operator} {e : Element} {p : Predicate Json} {b b' : Binder Json}
    {f : Json} (hp : (dialect (Except QueryError) index).predicate config entity o e = .ok p)
    (hl : lowerPredicate p b = .ok (f, b')) :
    ∃ us, b' = b.extend us ∧
      List.Forall₂ ((dialect (Except QueryError) index).Bound termOf entity)
        ((Comparison.operands Value.items? ⟨o, e.name, e.value⟩).filter fun _ => true) us ∧
      Holds us f := by
  obtain ⟨-, x, hx, rfl⟩ := Dialect.converts_of_predicate_eq_ok hp
  have hbound := hx.bound termOf
  generalize e.value = v at hx hbound
  rw [List.filter_true]
  cases hx with
  | @range lower upper l u _ _ =>
    obtain ⟨⟨ps, b₁⟩, hbind, hl⟩ := bind_eq_ok.mp hl
    obtain ⟨rfl, rfl⟩ := Prod.mk.inj (pure_eq_ok.mp hl)
    exact ⟨_, (Binder.bindAll_eq_ok hbind).2, hbound,
      .atom (.range _ [(.greaterOrEqual, l), (.lessOrEqual, u)]), rfl, operandsOf_atom _⟩
  | @choice items ns _ _ _ =>
    obtain ⟨⟨ps, b₁⟩, hbind, hl⟩ := bind_eq_ok.mp hl
    obtain ⟨rfl, rfl⟩ := Prod.mk.inj (pure_eq_ok.mp hl)
    refine ⟨_, (Binder.bindAll_eq_ok hbind).2, hbound, .atom (.terms _ ns), rfl, ?_⟩
    simp [Leaf.operands, Function.comp_def]
  | @pattern s n hn =>
    obtain rfl : .string s = n := Except.ok.inj (toPlain_of_toNative hn)
    obtain ⟨⟨x, b₁⟩, hbind, hl⟩ := bind_eq_ok.mp hl
    obtain ⟨rfl, rfl⟩ := Prod.mk.inj (pure_eq_ok.mp hl)
    exact ⟨_, (Binder.bind_eq_ok hbind).2, hbound,
      .atom (.wildcard _ (wildcardOfLike s)), rfl, operandsOf_atom _⟩
  | @value _ _ n hb hi hlike _ =>
    have hterm : termOf o n = n := by cases o <;> first | contradiction | rfl
    obtain ⟨x, hbind⟩ := bind_of_single hlike hl
    refine ⟨_, (Binder.bind_eq_ok hbind).2, ?_, ?_⟩
    · simpa only [Operand.values, List.map_cons, List.map_nil, hterm] using hbound
    · obtain ⟨rfl, rfl⟩ | ⟨bound, hbound, rfl⟩ := lowerPredicate_single hlike hl
      · exact ⟨.atom (.term _ n), rfl, operandsOf_atom _⟩
      · refine ⟨.atom (.range (path config e.name) [(o, n)]), ?_, operandsOf_atom _⟩
        have hpath : (dialect (Except QueryError) index).field config e.name =
            path config e.name := rfl
        simp [hpath, leaf, Json.single, read?, leaf?, bounds?, bound?, hbound]

theorem exists_of_usesAll {n : Nat} {us : List (Named Json)} {fs : List Json}
    (h : UsesAll (fun _ us f => Holds us f) n us fs) :
    ∃ gs, readAll? fs = some gs ∧ gs.flatMap operandsOf = us.map (·.value) := by
  induction h with
  | nil => exact ⟨[], rfl, rfl⟩
  | cons hf _ ih =>
    obtain ⟨g, hg, hoperands⟩ := hf
    obtain ⟨gs, hgs, hflat⟩ := ih
    refine ⟨g :: gs, by simp [readAll?, hg, hgs], ?_⟩
    rw [List.flatMap_cons, hoperands, hflat, List.map_append]

/-- **Predicates, joins and negations hold what is bound.** -/
def binding (index : Index) : (dialect (Except QueryError) index).Binding where
  binds _ := true
  translate := termOf
  uses _ us f := Holds us f
  predicate hp hl _ := binds_predicate hp hl
  join {c _ _ _ _} _ hfs hf := by
    obtain rfl := Except.ok.inj hf
    obtain ⟨gs, hgs, hoperands⟩ := exists_of_usesAll hfs
    exact ⟨_, read?_join c hgs, by simpa using hoperands⟩
  negate hf hg := by
    obtain rfl := Except.ok.inj hg
    obtain ⟨g, hread, hoperands⟩ := hf
    exact ⟨_, read?_negate hread, by simpa using hoperands⟩

/-- **The parameters of a compiled body are the operands of what is left beside its keys, in order,
and so are the operands that are read out of its filter.** -/
theorem exists_of_compile {q : Query} {s : Statement Json Json}
    (h : (dialect (Except QueryError) index).compile config q = .ok s) :
    ∃ keys rest us, Divided config q.condition keys rest ∧
      (dialect (Except QueryError) index).KeysConverted ⟨q.entity, config.idField⟩ keys
        s.keyLookup ∧
      List.Forall₂ ((dialect (Except QueryError) index).Bound termOf q.entity)
        (PortableQuery.operandsOf rest) us ∧
      s.parameters = us.map (fun u => ⟨none, u.value⟩) ∧ (s.filter = none → us = []) ∧
      ∀ f ∈ s.filter, ∃ g, read? f = some g ∧ operandsOf g = us.map (·.value) := by
  obtain ⟨l, hl, hs⟩ := Dialect.exists_lowering_of_compile h
  obtain ⟨keys, rest, hdivided, hkeys, hrest⟩ := Dialect.exists_divided rfl hl
  obtain ⟨us, hus, hbound, hused⟩ := (binding index).exists_of_restLowered hrest
  have hs := eq_of_assemble hs
  have hlookup : s.keyLookup = l.keyLookup := by rw [hs, Lowered.finish]
  have hfilter : s.filter = l.filter := by rw [hs, Lowered.finish]
  have hparameters : s.parameters = l.parameters := by rw [hs, Lowered.finish]
  refine ⟨keys, rest, us, hdivided, hlookup ▸ hkeys, ?_, ?_, ?_, ?_⟩
  · rwa [← List.filter_true (PortableQuery.operandsOf rest)]
  · rw [← parametersFrom_eq_map .inline (fun _ _ => rfl) 1, hparameters]
    exact hus
  · rw [hfilter]
    intro hnone
    rw [hnone] at hused
    exact hused
  · rw [hfilter]
    intro f hf
    rw [hf] at hused
    exact hused

end PortableQuery.Search
