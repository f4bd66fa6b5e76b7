import PortableQuery.Aql.Loop
import PortableQuery.Cql.Select
import PortableQuery.Document.Find
import PortableQuery.Proofs.Cql.Conversion
import PortableQuery.Proofs.Document.Storable
import PortableQuery.Proofs.Json.Plain
import PortableQuery.Proofs.Lowering.Failure
import PortableQuery.Search.Body
import PortableQuery.Sql.Select

set_option autoImplicit false

/-!
# How each store can fail

Beside the predicates of a condition, there are few ways to fail that are a store's own: a value may
have no form in the store, and a statement may ask for something that its store has no words for.
-/

namespace PortableQuery

variable {P : QueryError → Prop}

theorem Sql.errsOnly_convert (schema : Option String) (scope : Scope) (v : Value) :
    ErrsOnly (·.IsConversion scope.entity)
      ((Sql.dialect (Except QueryError) schema).toNative scope v) := by
  have hconvert : ErrsOnly (·.IsConversion scope.entity) (Sql.toNative scope v) := by
    cases v with
    | udt => exact .error (scope.isConversion_error _)
    | _ => exact .ok _
  exact hconvert.ofExcept

/-! ## CQL -/

namespace Cql

variable {k : Keyspace} {entity : String}

theorem errsOnly_orderEntries (hP : ∀ field, P (.invalid (.unsortable field entity)))
    (sorts : List SortKey) : ErrsOnly P (orderEntries k entity sorts) := by
  induction sorts with
  | nil => exact .ok _
  | cons s ss ih =>
    unfold orderEntries
    split
    · exact .error (hP _)
    · exact ih.bind fun _ _ => .ok _

theorem errsOnly_assemble {q : Query} (hP : ∀ field, P (.invalid (.unsortable field q.entity)))
    (l : Lowered String Native) : ErrsOnly P (assemble k q l) :=
  ((errsOnly_orderEntries hP q.sorts).bind fun _ _ => .ok _).bind fun _ _ => .ok _

end Cql

/-! ## Documents -/

namespace Document

theorem errsOnly_convert (scope : Scope) (v : Value) :
    ErrsOnly (·.IsConversion scope.entity)
      ((dialect (Except QueryError)).toNative scope v) := by
  have hencode : ErrsOnly (·.IsConversion scope.entity) (encode scope v) :=
    fun _ h => encode_eq_error h
  exact hencode.ofExcept

variable (hP : ∀ name, P (.invalid (.dollarField name)))

include hP

theorem errsOnly_identifier (name : String) : ErrsOnly P (identifier name) := by
  unfold identifier
  split
  · exact .error (hP _)
  · exact .ok _

theorem errsOnly_checkNames (names : List String) : ErrsOnly P (checkNames names) := by
  induction names with
  | nil => exact .ok _
  | cons name names ih => exact (errsOnly_identifier hP name).bind fun _ _ => ih

theorem errsOnly_assemble (config : CompilerConfig) (q : Query) (l : Lowered Json Json) :
    ErrsOnly P (assemble config q l) :=
  (errsOnly_checkNames hP _).bind fun _ _ => .ok _

end Document

/-! ## The search engine -/

namespace Search

variable {index : Index} {config : CompilerConfig}

theorem errsOnly_convert (scope : Scope) (v : Value) :
    ErrsOnly (·.IsConversion scope.entity)
      ((dialect (Except QueryError) index).toNative scope v) :=
  (Value.errsOnly_toPlain scope v).ofExcept

theorem errsOnly_assemble {q : Query}
    (hP : ∀ rows, P (.invalid (.window q.skip rows config.maxResultWindow)))
    (l : Lowered Json Json) : ErrsOnly P (assemble index config q l) := by
  unfold assemble
  dsimp only
  split
  · exact .ok _
  · exact .error (hP _)

end Search

/-! ## AQL -/

namespace Aql

theorem errsOnly_convert (scope : Scope) (v : Value) :
    ErrsOnly (·.IsConversion scope.entity) ((dialect (Except QueryError)).toNative scope v) :=
  (Value.errsOnly_toPlain scope v).ofExcept

theorem errsOnly_assemble (hP : P (.bindingConflict keysName)) (config : CompilerConfig) (q : Query)
    (l : Lowered String Json) : ErrsOnly P (assemble config q l) := by
  refine ErrsOnly.bind ?_ fun _ _ => .ok _
  unfold bindKeys
  split
  · exact .ok _
  · split
    · exact .error hP
    · exact .ok _

end Aql

end PortableQuery
