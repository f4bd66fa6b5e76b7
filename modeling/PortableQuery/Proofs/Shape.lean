import PortableQuery.Proofs.Failure
import PortableQuery.Proofs.Lowering.Shape

set_option autoImplicit false

/-!
# What reaches each store

The five dialects write predicates by cases on the operator and the form of its operand, and the
cases that they do write are all that the shapes of operands leave open. So none of them ever calls
a predicate malformed.
-/

namespace PortableQuery

/-! ## Steps -/

theorem ErrsOnly.noBackstop {α : Type} {x : Except QueryError α} {entity : String}
    (h : ErrsOnly (·.IsConversion entity) x) : NoBackstop x :=
  h.imp fun _ he => he.not_isBackstop

section Binding

variable {N α : Type} (b : Binder N) (field : String)

theorem noBackstop_bind (v : N) {f : String × Binder N → α} :
    NoBackstop (b.bind field v >>= fun r => .ok (f r)) :=
  (Binder.errsOnly_bind not_isBackstop_bindingConflict b field v).bind fun _ _ => .ok _

theorem noBackstop_bindAll (vs : List N) {f : List String × Binder N → α} :
    NoBackstop (b.bindAll field vs >>= fun r => .ok (f r)) :=
  (Binder.errsOnly_bindAll not_isBackstop_bindingConflict b field vs).bind fun _ _ => .ok _

theorem noBackstop_bindTwo (lower upper : N) {f : String × Binder N → String × Binder N → α} :
    NoBackstop (b.bind field lower >>= fun r => r.2.bind field upper >>= fun r' => .ok (f r r')) :=
  (Binder.errsOnly_bind not_isBackstop_bindingConflict b field lower).bind fun r _ =>
    noBackstop_bind r.2 field upper

end Binding

/-! ## SQL -/

namespace Sql

theorem noBackstop_single (o : Operator) (name path : String) (v : Value) (b : Binder Value) :
    NoBackstop (lowerPredicate ⟨o, name, path, .single v⟩ b) := by
  cases v with
  | null => cases o <;> first | exact .ok _ | exact .error nofun
  | _ => cases o <;> exact noBackstop_bind _ _ _

theorem sparesBackstops (schema : Option String) :
    (dialect (Except QueryError) schema).SparesBackstops where
  toNative scope v := (errsOnly_convert schema scope v).noBackstop
  lower name path b _ hx := by
    cases hx with
    | range => exact noBackstop_bindTwo _ _ _ _
    | choice => exact noBackstop_bindAll _ _ _
    | pattern | value => exact noBackstop_single _ _ _ _ _
  join _ _ := .ok _
  negate _ := .ok _
  assemble _ _ _ := .ok _

end Sql

/-! ## CQL -/

namespace Cql

theorem noBackstop_single {o : Operator} (ho : o ≠ .like) (name path : String) (n : Native)
    (b : Binder Native) : NoBackstop (lowerPredicate ⟨o, name, path, .single n⟩ b) := by
  cases n with
  | null => exact .error nofun
  | _ => cases o <;> first | contradiction | exact noBackstop_bind _ _ _

/-- Patterns are the one case that CQL has nothing to write for, and it does not support them. -/
theorem sparesBackstops (k : Keyspace) (types : Option (String → String → Option UserType)) :
    (dialect k (types.map declaredTypes)).SparesBackstops where
  toNative scope v := (errsOnly_toNative types scope v).noBackstop
  lower name path b ho hx := by
    cases hx with
    | range => exact noBackstop_bindTwo _ _ _ _
    | choice => exact noBackstop_bindAll _ _ _
    | pattern =>
      have hlike : Operator.like ∉ capabilities.operators := by decide
      exact absurd ho hlike
    | value _ _ hl => exact noBackstop_single hl _ _ _ _
  join c _ := by
    cases c with
    | and => exact .ok _
    | or => exact .error nofun
  negate _ := .error nofun
  assemble _ _ l := errsOnly_assemble (fun _ => nofun) l

end Cql

/-! ## Documents -/

namespace Document

theorem sparesBackstops : (dialect (Except QueryError)).SparesBackstops where
  toNative scope v := (errsOnly_convert scope v).noBackstop
  lower {_ o _ _} name path b _ hx := by
    refine (errsOnly_identifier (fun _ => nofun) name).bind fun _ _ => ErrsOnly.bind ?_
      fun _ _ => .ok _
    cases hx with
    | range => exact noBackstop_bindAll _ _ _
    | choice => exact noBackstop_bindAll _ _ _
    | pattern hn =>
      obtain rfl := Except.ok.inj hn
      exact noBackstop_bind _ _ _
    | value hb hi hl => cases o <;> first | contradiction | exact noBackstop_bind _ _ _
  join _ _ := .ok _
  negate f := by
    show NoBackstop (negate f)
    unfold negate
    split
    · split
      · exact .error nofun
      · exact .ok _
    · exact .error nofun
  assemble config q l := errsOnly_assemble (fun _ => nofun) config q l

end Document

/-! ## The search engine -/

namespace Search

theorem noBackstop_single {o : Operator} (hb : o ≠ .between) (hi : o ≠ .oneOf) (hl : o ≠ .like)
    (name path : String) (n : Json) (b : Binder Json) :
    NoBackstop (lowerPredicate ⟨o, name, path, .single n⟩ b) := by
  cases n with
  | null => exact .error nofun
  | _ => cases o <;> first | contradiction | exact noBackstop_bind _ _ _

theorem sparesBackstops (index : Index) :
    (dialect (Except QueryError) index).SparesBackstops where
  toNative scope v := (errsOnly_convert scope v).noBackstop
  lower name path b _ hx := by
    cases hx with
    | range => exact noBackstop_bindAll _ _ _
    | choice => exact noBackstop_bindAll _ _ _
    | pattern hn =>
      obtain rfl := Except.ok.inj hn
      exact noBackstop_bind _ _ _
    | value hb hi hl => exact noBackstop_single hb hi hl _ _ _ _
  join _ _ := .ok _
  negate _ := .ok _
  assemble _ _ l := errsOnly_assemble (fun _ => nofun) l

end Search

/-! ## AQL -/

namespace Aql

theorem noBackstop_single {o : Operator} (hb : o ≠ .between) (hi : o ≠ .oneOf) (name path : String)
    (n : Json) (b : Binder Json) : NoBackstop (lowerPredicate ⟨o, name, path, .single n⟩ b) := by
  cases o <;> first | contradiction | exact noBackstop_bind _ _ _

theorem sparesBackstops : (dialect (Except QueryError)).SparesBackstops where
  toNative scope v := (errsOnly_convert scope v).noBackstop
  lower name path b _ hx := by
    cases hx with
    | range => exact noBackstop_bindTwo _ _ _ _
    | choice => exact noBackstop_bindAll _ _ _
    | pattern => exact noBackstop_single (o := .like) nofun nofun _ _ _ _
    | value hb hi => exact noBackstop_single hb hi _ _ _ _
  join _ _ := .ok _
  negate _ := .ok _
  assemble config q l := errsOnly_assemble nofun config q l

end Aql

/-! ## Stores -/

/-- **No dialect ever reports a malformed predicate, a key lookup without a predicate or one by a
range, whatever is wrong with the query. Where a query is compiled, at any depth of its condition,
no conjunction or disjunction is empty and every predicate names a field, and ranges have two
bounds, choices have scalars and at least one of them, and patterns are texts; so it is with the
predicate that becomes a key lookup and with its siblings.** -/
theorem shapes_checked_first (config : CompilerConfig) (q : Query) :
    (∀ schema, (Sql.dialect (Except QueryError) schema).ChecksShapes config q) ∧
      (∀ k (types : Option (String → String → Option UserType)),
        (Cql.dialect k (types.map declaredTypes)).ChecksShapes config q) ∧
      (Document.dialect (Except QueryError)).ChecksShapes config q ∧
      (∀ index, (Search.dialect (Except QueryError) index).ChecksShapes config q) ∧
      (Aql.dialect (Except QueryError)).ChecksShapes config q :=
  ⟨fun schema => (Sql.sparesBackstops schema).checksShapes config q,
    fun k types => (Cql.sparesBackstops k types).checksShapes config q,
    Document.sparesBackstops.checksShapes config q,
    fun index => (Search.sparesBackstops index).checksShapes config q,
    Aql.sparesBackstops.checksShapes config q⟩

/-- Beside a key, and below a negation, shapes are checked as well. -/
example : (Aql.dialect (Except QueryError)).compile {}
    { entity := "person", condition := some (.join .and [.predicate .equals ⟨"_id", .text "a"⟩,
      .not (.predicate .between ⟨"rank", .list [.int 1]⟩)]) } =
      .error (.invalid (.betweenShape "rank")) := rfl

end PortableQuery
