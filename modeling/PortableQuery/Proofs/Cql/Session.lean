import PortableQuery.Cql.Select
import PortableQuery.Proofs.Cql.Conversion
import PortableQuery.Proofs.Lowering.Simulation
import PortableQuery.Proofs.Schema.Asking
import PortableQuery.Proofs.Schema.Cache

set_option autoImplicit false

/-!
# Sessions of a compiler with a cache

A compiler keeps its cache from one query to the next. What a compilation asks for depends on the
answers only, so it can be told from a schema that never changes: the one with every pair that was
asked for frozen at its first answer.
-/

namespace PortableQuery

/-! ## Conversions that ask two schemas -/

namespace Simulation

variable {m n : Type → Type} [Monad m] [Monad n] [MonadExceptOf QueryError m]
  [MonadExceptOf QueryError n] [LawfulMonad m] [LawfulMonad n] (S : Simulation m n)
  {ask : SchemaLookup m} {ask' : SchemaLookup n}
  (hask : ∀ entity type, S.Rel (ask entity type) (ask' entity type))

include hask in
omit [LawfulMonad m] [LawfulMonad n] in
theorem resolveType (scope : Scope) (type : String) :
    S.Rel (PortableQuery.resolveType ask scope type)
      (PortableQuery.resolveType ask' scope type) := by
  refine S.bind (hask _ _) fun t => ?_
  cases t with
  | some t => exact S.pure t
  | none => exact S.throw _

open Cql

theorem fieldsToDeclared {fields : List (Named Value)} (hf : ∀ f ∈ fields, ∀ declared scope,
      S.Rel (Cql.toDeclared ask declared scope f.value)
        (Cql.toDeclared ask' declared scope f.value))
    (t : UserType) (scope : Scope) :
    S.Rel (Cql.fieldsToDeclared ask t scope fields) (Cql.fieldsToDeclared ask' t scope fields) := by
  rw [fieldsToDeclared_eq_mapM, fieldsToDeclared_eq_mapM]
  exact S.mapM fun f hmem => S.bind (S.ofExcept _) fun declared =>
    S.bind (hf f hmem declared _) fun _ => S.pure _

include hask

/-- **Schemas whose answers correspond lead to conversions against a declared type that do.** -/
theorem toDeclared (declared : FieldType) (scope : Scope) (v : Value) :
    S.Rel (Cql.toDeclared ask declared scope v) (Cql.toDeclared ask' declared scope v) := by
  induction v using Value.induct generalizing declared scope with
  | scalar v hv =>
    cases v with
    | list | map | udt => cases hv
    | null => exact S.pure _
    | int i =>
      cases declared with
      | int =>
        simp only [Cql.toDeclared]
        cases narrow? i with
        | some n => exact S.pure _
        | none => exact S.throw _
      | bigint => exact S.pure _
      | _ => exact S.throw _
    | _ => cases declared <;> first | exact S.pure _ | exact S.throw _
  | list items ih =>
    cases declared with
    | list element =>
      simp only [Cql.toDeclared, itemsToDeclared_eq_mapM]
      exact S.bind (S.mapM fun v hv => ih v hv element scope) fun _ => S.pure _
    | _ => exact S.throw _
  | map entries ih =>
    cases declared with
    | map value =>
      simp only [Cql.toDeclared, entriesToDeclared_eq_mapM]
      exact S.bind (S.mapM fun e he => S.bind (ih e he value _) fun _ => S.pure _) fun _ => S.pure _
    | _ => exact S.throw _
  | udt type fields ih =>
    cases declared with
    | udt name =>
      simp only [Cql.toDeclared]
      split
      · exact S.bind (S.resolveType hask scope type) fun t =>
          S.bind (S.fieldsToDeclared ih t scope) fun _ => S.pure _
      · exact S.throw _
    | _ => exact S.throw _

/-- **Schemas whose answers correspond lead to conversions that do.** -/
theorem toNative (scope : Scope) (v : Value) :
    S.Rel (Cql.toNative (some ask) scope v) (Cql.toNative (some ask') scope v) := by
  induction v using Value.induct generalizing scope with
  | scalar v hv =>
    cases v with
    | list | map | udt => cases hv
    | _ => exact S.pure _
  | list items ih =>
    simp only [Cql.toNative, itemsToNative_eq_mapM]
    exact S.bind (S.mapM fun v hv => ih v hv scope) fun _ => S.pure _
  | map entries ih =>
    simp only [Cql.toNative, entriesToNative_eq_mapM]
    exact S.bind (S.mapM fun e he => S.bind (ih e he _) fun _ => S.pure _) fun _ => S.pure _
  | udt type fields =>
    exact S.bind (S.resolveType hask scope type) fun t =>
      S.bind (S.fieldsToDeclared (fun f _ declared scope =>
        S.toDeclared hask declared scope f.value) t scope) fun _ => S.pure _

/-- **Schemas whose answers correspond lead to statements that do.** -/
theorem compileCql (k : Keyspace) (config : CompilerConfig) (q : Query) :
    S.Rel ((dialect k (some ask)).compile config q) ((dialect k (some ask')).compile config q) :=
  S.compile config (S.toNative hask) q

end Simulation

namespace Cql

/-! ## Two ways of asking -/

/-- Asking a schema through its cache. -/
def cached : SchemaLookup (Asking SchemaCache) := fun entity type =>
  liftM (SchemaCache.ask entity type)

/-- Asking for types that never change, while the pairs are written down, the latest one first. -/
def logged (types : String → String → Option UserType) : SchemaLookup (Asking (List TypeKey)) :=
  fun entity type => do
    modify ((entity, type) :: ·)
    pure (types entity type)

/-- Computations correspond if they come to the same, whatever is written down. -/
def unlogged : Simulation (Asking (List TypeKey)) (Except QueryError) where
  Rel x y := ∀ log, (Asking.outcome x log).1 = y
  pure _ _ := rfl
  throw _ _ := rfl
  bind {_ _ x y f g} h hfg log := by
    have hx := h log
    rw [Asking.outcome_bind]
    generalize Asking.outcome x log = r at hx
    obtain ⟨_ | a, log'⟩ := r
    · rw [← hx]
      rfl
    · rw [← hx]
      exact hfg a log'

/-- Types that never change are the same when the pairs are written down. -/
theorem unlogged_logged (types : String → String → Option UserType) (entity type : String) :
    unlogged.Rel (logged types entity type) (declaredTypes types entity type) :=
  fun _ => rfl

/-- Computations correspond if they come to the same, and if the cache has been through what is
written down. -/
def replayed (schema : Schema) (history : CacheHistory) :
    Simulation (Asking SchemaCache) (Asking (List TypeKey)) where
  Rel x y := ∀ log, Asking.outcome x (.behind schema (log.map .lookup ++ history)) =
    ((Asking.outcome y log).1,
      .behind schema ((Asking.outcome y log).2.map .lookup ++ history))
  pure _ _ := rfl
  throw _ _ := rfl
  bind {_ _ x y f g} h hfg log := by
    rw [Asking.outcome_bind, Asking.outcome_bind, h log]
    generalize Asking.outcome y log = r
    obtain ⟨_ | a, log'⟩ := r
    · rfl
    · exact hfg a log'

/-- A cache answers as the frozen schema does, and goes through one more lookup. -/
theorem replayed_cached (schema : Schema) (history : CacheHistory) (entity type : String) :
    (replayed schema history).Rel (cached entity type)
      (logged (schema.frozen history) entity type) := by
  intro log
  have hanswer : ((SchemaCache.ask entity type).run
      (.behind schema (log.map .lookup ++ history))).1 =
      schema.frozen (log.map .lookup ++ history) entity type := SchemaCache.answer_behind _ _ _
  rw [Schema.frozen_asked] at hanswer
  exact Prod.ext (congrArg Except.ok hanswer) rfl

/-! ## Sessions -/

/-- What happens in a session with one compiler. -/
inductive SessionStep where
  | compile (q : Query)
  | declare (entity : String) (t : UserType)

section Session

variable (k : Keyspace) (config : CompilerConfig) (schema : Schema)

/-- The cache behind a session, whose latest step comes first. -/
def cacheAfter : List SessionStep → SchemaCache
  | [] => { source := { schema := schema } }
  | .compile q :: past =>
    (Asking.outcome ((dialect k (some cached)).compile config q) (cacheAfter past)).2
  | .declare entity t :: past => (cacheAfter past).declare entity t

/-- The pairs that are asked for while a query is compiled, whether it is compiled or not. -/
def askedFor (types : String → String → Option UserType) (q : Query) : List TypeKey :=
  (Asking.outcome ((dialect k (some (logged types))).compile config q) []).2

/-- What the cache has been through in a session: a query asks as it would ask the schema that is
frozen by then. -/
def sessionHistory : List SessionStep → CacheHistory
  | [] => []
  | .compile q :: past =>
    (askedFor k config (schema.frozen (sessionHistory past)) q).map .lookup ++ sessionHistory past
  | .declare entity t :: past => .declare entity t :: sessionHistory past

theorem outcome_compile (history : CacheHistory) (q : Query) :
    Asking.outcome ((dialect k (some cached)).compile config q) (.behind schema history) =
      ((dialect k (some (declaredTypes (schema.frozen history)))).compile config q,
        .behind schema ((askedFor k config (schema.frozen history) q).map .lookup ++ history)) := by
  have hreplayed :=
    (replayed schema history).compileCql (replayed_cached schema history) k config q []
  have hunlogged := unlogged.compileCql (unlogged_logged (schema.frozen history)) k config q []
  rw [← hunlogged]
  exact hreplayed

/-- **The cache behind a session is the one behind its history.** -/
theorem cacheAfter_eq_behind (past : List SessionStep) :
    cacheAfter k config schema past = .behind schema (sessionHistory k config schema past) := by
  induction past with
  | nil => rfl
  | cons step past ih =>
    cases step with
    | compile q => rw [cacheAfter, ih, outcome_compile, sessionHistory]
    | declare entity t => rw [cacheAfter, ih, sessionHistory, SchemaCache.behind, SchemaCache.after]

theorem forgotten_sessionHistory (past : List SessionStep) :
    (sessionHistory k config schema past).forgotten = [] := by
  have hlookups (keys : List TypeKey) (history : CacheHistory) :
      CacheHistory.forgotten (keys.map .lookup ++ history) = history.forgotten := by
    induction keys with
    | nil => rfl
    | cons key keys ih => exact ih
  induction past with
  | nil => rfl
  | cons step past ih =>
    cases step with
    | compile q => rw [sessionHistory, hlookups, ih]
    | declare entity t => exact ih

end Session

/-- **A cache is not noticed, and it asks once.** A pair is answered as the schema would have
answered it when it was first asked for since the cache was told to forget; it is asked for at that
time and at no other, so there is one call for each pair of each period; and the cache holds one
answer for each pair of the period that is not over. So in a session every query comes to what it
would come to with a schema that has every pair asked for before frozen at its first answer, and
there is one call for each pair. -/
theorem cache_transparent (schema : Schema) :
    (∀ (history : CacheHistory) (entity type : String), ∃ earlier,
      CacheHistory.FirstAsked (.lookup (entity, type) :: history) (entity, type) earlier ∧
        ((SchemaCache.ask entity type).run (.behind schema history)).1 =
          (schema.following earlier).userType? entity type) ∧
    (∀ (history : CacheHistory) (key : TypeKey),
      (SchemaCache.behind schema (.lookup key :: history)).source.calls =
        (SchemaCache.behind schema history).source.calls +
          if key ∈ history.asked then 0 else 1) ∧
    (∀ history : CacheHistory,
      (SchemaCache.behind schema history).source.calls =
          (history.periods.flatMap (·.dedup)).length ∧
        (SchemaCache.behind schema history).size = history.asked.dedup.length) ∧
    ∀ (k : Keyspace) (config : CompilerConfig) (past : List SessionStep) (q : Query),
      (Asking.outcome ((dialect k (some cached)).compile config q)
          (cacheAfter k config schema past)).1 =
        (dialect k (some (declaredTypes
          (schema.frozen (sessionHistory k config schema past))))).compile config q ∧
      (cacheAfter k config schema past).source.calls =
        (sessionHistory k config schema past).asked.dedup.length := by
  refine ⟨fun history entity type => ?_, SchemaCache.calls_lookup, fun history =>
    ⟨SchemaCache.calls_behind history, SchemaCache.size_behind history⟩,
    fun k config past q => ⟨?_, ?_⟩⟩
  · rw [SchemaCache.answer_behind]
    exact CacheHistory.exists_firstAsked schema (Schema.firstAnswer?_lookup schema history _ _)
  · rw [cacheAfter_eq_behind, outcome_compile]
  · rw [cacheAfter_eq_behind, SchemaCache.calls_behind, CacheHistory.periods,
      forgotten_sessionHistory, List.flatMap_singleton]

/-- A type that is declared once more behind a compiler counts as it was, and is not asked for
again. -/
example :
    let home : Query :=
      { entity := "person"
        condition := some (.predicate .equals ⟨"home", .udt "address" [⟨"number", .int 7⟩]⟩) }
    let past : List SessionStep :=
      [.compile home, .declare "person" ⟨"address", [⟨"number", .text⟩]⟩, .compile home,
        .declare "person" ⟨"address", [⟨"number", .int⟩]⟩]
    (cacheAfter ⟨"k", [], false⟩ {} {} past).source.calls = 1 ∧
      (sessionHistory ⟨"k", [], false⟩ {} {} past).asked = List.replicate 2 ("person", "address") :=
  ⟨rfl, rfl⟩

end Cql

end PortableQuery
