import PortableQuery.Proofs.Document.Filter
import PortableQuery.Proofs.Failure
import PortableQuery.Proofs.Lowering.Refusal

set_option autoImplicit false

/-!
# What each store refuses

No step of the five dialects refuses anything that passes the check of its dialect: most of them
cannot refuse at all, the disjunctions and negations of CQL are never joined or negated, and what is
negated in a document filter is always the restriction of one field.
-/

namespace PortableQuery

/-! ## Steps -/

theorem ErrsOnly.notRefused {α : Type} {x : Except QueryError α} {entity : String}
    (h : ErrsOnly (·.IsConversion entity) x) : NotRefused x :=
  h.imp fun _ ⟨_, _, he⟩ => he ▸ not_isRefusal_conversion _ _ _

theorem notRefused_invalid {α : Type} (reason : InvalidQuery) :
    NotRefused (.error (.invalid reason) : Except QueryError α) :=
  .error (not_isRefusal_invalid reason)

section Binding

variable {N : Type} (b : Binder N) (field : String)

theorem notRefused_bind (v : N) : NotRefused (b.bind field v) :=
  Binder.errsOnly_bind not_isRefusal_bindingConflict b field v

theorem notRefused_bindAll (vs : List N) : NotRefused (b.bindAll field vs) :=
  Binder.errsOnly_bindAll not_isRefusal_bindingConflict b field vs

end Binding

theorem Sql.refusesUpFront (schema : Option String) :
    (Sql.dialect (Except QueryError) schema).RefusesUpFront where
  toNative scope v := (Sql.errsOnly_convert schema scope v).notRefused
  lower p b := by
    show NotRefused (Sql.lowerPredicate p b)
    unfold Sql.lowerPredicate
    split
    · exact .ok _
    · exact notRefused_invalid _
    · exact (notRefused_bindAll _ _ _).bind fun _ _ => .ok _
    · exact (notRefused_bind _ _ _).bind fun _ _ => (notRefused_bind _ _ _).bind fun _ _ => .ok _
    · exact (notRefused_bind _ _ _).bind fun _ _ => .ok _
    · exact notRefused_invalid _
  join _ _ := .ok _
  negate _ _ := .ok _
  assemble _ _ _ := .ok _

theorem Cql.refusesUpFront (k : Cql.Keyspace)
    (types : Option (String → String → Option UserType)) :
    (Cql.dialect k (types.map declaredTypes)).RefusesUpFront where
  toNative scope v := (Cql.errsOnly_toNative types scope v).notRefused
  lower p b := by
    show NotRefused (Cql.lowerPredicate p b)
    unfold Cql.lowerPredicate
    split
    · exact notRefused_invalid _
    · exact (notRefused_bindAll _ _ _).bind fun _ _ => .ok _
    · exact (notRefused_bind _ _ _).bind fun _ _ => (notRefused_bind _ _ _).bind fun _ _ => .ok _
    · exact notRefused_invalid _
    · exact (notRefused_bind _ _ _).bind fun _ _ => .ok _
    · exact notRefused_invalid _
  join {c} fs hc := by
    cases c with
    | and => exact .ok _
    | or => cases hc
  negate hc := by cases hc
  assemble _ _ l := Cql.errsOnly_assemble (fun _ => not_isRefusal_invalid _) l

theorem Document.exists_negate {config : CompilerConfig} {entity : String} {o : Operator}
    {e : Element} {b b' : Binder Json} {f : Json}
    (h : (Document.dialect (Except QueryError)).lowerCondition config entity (.predicate o e) b =
      .ok (f, b')) : ∃ g, Document.negate f = .ok g := by
  obtain ⟨p, hp, h⟩ := bind_eq_ok.mp h
  rw [ofExcept_eq] at h
  obtain ⟨ops, _, rfl, hpath, -⟩ := Document.exists_restricts hp h
  exact ⟨_, by rw [Document.negate, if_neg (by rw [hpath]; exact Bool.false_ne_true)]⟩

theorem Document.refusesUpFront : (Document.dialect (Except QueryError)).RefusesUpFront where
  toNative scope v := (Document.errsOnly_convert scope v).notRefused
  lower p b := by
    show NotRefused (Document.lowerPredicate p b)
    refine (Document.errsOnly_identifier (fun _ => not_isRefusal_invalid _) p.name).bind
      fun _ _ => ErrsOnly.bind ?_ fun _ _ => .ok _
    unfold Document.operators
    split
    · exact (notRefused_bindAll _ _ _).bind fun _ _ => .ok _
    · exact (notRefused_bindAll _ _ _).bind fun _ _ => .ok _
    · exact (notRefused_bind _ _ _).bind fun _ _ => .ok _
    · exact notRefused_invalid _
    · exact notRefused_invalid _
    · exact notRefused_invalid _
    · exact (notRefused_bind _ _ _).bind fun _ _ => .ok _
    · exact notRefused_invalid _
  join _ _ := .ok _
  negate {_ _ c _ _ f} hc hf := by
    cases c with
    | predicate o e =>
      obtain ⟨g, hg⟩ := Document.exists_negate hf
      show NotRefused (Document.negate f)
      rw [hg]
      exact .ok g
    | join | not => cases hc
  assemble := Document.errsOnly_assemble fun _ => not_isRefusal_invalid _

theorem Search.refusesUpFront (index : Search.Index) :
    (Search.dialect (Except QueryError) index).RefusesUpFront where
  toNative scope v := (Search.errsOnly_convert scope v).notRefused
  lower p b := by
    show NotRefused (Search.lowerPredicate p b)
    unfold Search.lowerPredicate
    split
    · exact notRefused_invalid _
    · exact (notRefused_bind _ _ _).bind fun _ _ => .ok _
    · exact (notRefused_bindAll _ _ _).bind fun _ _ => .ok _
    · exact (notRefused_bind _ _ _).bind fun _ _ => .ok _
    · exact (notRefused_bindAll _ _ _).bind fun _ _ => .ok _
    · split
      · exact (notRefused_bind _ _ _).bind fun _ _ => .ok _
      · exact notRefused_invalid _
    · exact notRefused_invalid _
  join _ _ := .ok _
  negate _ _ := .ok _
  assemble _ _ l := Search.errsOnly_assemble (fun _ => not_isRefusal_invalid _) l

theorem Aql.refusesUpFront : (Aql.dialect (Except QueryError)).RefusesUpFront where
  toNative scope v := (Aql.errsOnly_convert scope v).notRefused
  lower p b := by
    show NotRefused (Aql.lowerPredicate p b)
    unfold Aql.lowerPredicate
    split
    · exact (notRefused_bindAll _ _ _).bind fun _ _ => .ok _
    · exact (notRefused_bind _ _ _).bind fun _ _ => (notRefused_bind _ _ _).bind fun _ _ => .ok _
    · exact notRefused_invalid _
    · exact notRefused_invalid _
    · exact (notRefused_bind _ _ _).bind fun _ _ => .ok _
    · exact notRefused_invalid _
  join _ _ := .ok _
  negate _ _ := .ok _
  assemble := Aql.errsOnly_assemble (not_isRefusal_bindingConflict _)

/-! ## Stores -/

/-- **The check of a condition fails with the first node, parents before children and children from
left to right, that is more than the store can express, and passes if there is none. Each dialect
refuses a query for its way of paging or else for what that check finds, whatever else is wrong with
the query, and no join or negation that would refuse is ever reached.** -/
theorem unsupported_first :
    (∀ (k : Capabilities) (backend : String) (c : Condition),
      (k.check backend c = .ok () ↔ ∀ x ∈ c.preorder, ∀ operation, ¬ k.Lacks x operation) ∧
      ∀ e, k.check backend c = .error e ↔
        ∃ operation, k.FirstLacks c operation ∧ e = .unsupported backend operation) ∧
    ∀ (config : CompilerConfig) (q : Query),
      (∀ schema, (Sql.dialect (Except QueryError) schema).RefusesExactly config q) ∧
      (∀ k (types : Option (String → String → Option UserType)),
        (Cql.dialect k (types.map declaredTypes)).RefusesExactly config q) ∧
      (Document.dialect (Except QueryError)).RefusesExactly config q ∧
      (∀ index, (Search.dialect (Except QueryError) index).RefusesExactly config q) ∧
      (Aql.dialect (Except QueryError)).RefusesExactly config q :=
  ⟨fun _ _ _ => ⟨Capabilities.check_eq_ok_iff, fun _ => Capabilities.check_eq_error_iff⟩,
    fun config q => ⟨fun schema => (Sql.refusesUpFront schema).refusesExactly config q,
      fun k types => (Cql.refusesUpFront k types).refusesExactly config q,
      Document.refusesUpFront.refusesExactly config q,
      fun index => (Search.refusesUpFront index).refusesExactly config q,
      Aql.refusesUpFront.refusesExactly config q⟩⟩

/-- The walk would come upon the empty conjunction first, but the negation is refused before it. -/
example : (Document.dialect (Except QueryError)).compile {}
    { entity := "", condition := some (.join .or [.join .and [], .not (.join .and [])]) } =
      .error (.unsupported "document" "NOT(AND)") := rfl

end PortableQuery
