import PortableQuery.Proofs.Cql.Placeholders
import PortableQuery.Proofs.Statement.Numbering

set_option autoImplicit false

/-!
# Reading CQL

A `SELECT` of one table, read back into its parts. The question marks outside quotes are numbered
first, from the left and from zero on; then names are read as in SQL, and the filter as a row of
restrictions with `AND` between them, since there is nothing else.
-/

namespace PortableQuery.Cql

open Grammar

/-! ## Statements -/

/-- A column and what it is compared with: one value, or several to choose from. -/
def restriction? : Reader (Comparison (Slot Nat)) := fun ts => do
  let (field, ts) ← Sql.name? ts
  match expect? (Token.isWord "IN") ts with
  | some ts => do
    let ts ← expect? (· == .sign "(") ts
    let (ns, ts) ← separated? isComma mark? ts
    let ts ← expect? (· == .sign ")") ts
    pure (⟨.oneOf, field, .many ns⟩, ts)
  | none =>
    match ts with
    | [] => none
    | t :: ts => do
      let o ← comparison? "=" t
      let (n, ts) ← mark? ts
      pure (⟨o, field, .one n⟩, ts)

/-- The parts of a statement, `V` being what stands for values. -/
structure Select (V : Type) where
  /-- No columns are all of them. -/
  columns : List String
  keyspace : String
  table : String
  /-- No restrictions are no filter. -/
  restrictions : List (Comparison V)
  order : List SortKey
  filtering : Bool

/-- The same parts with other values. -/
def Select.map {V W : Type} (f : V → W) (s : Select V) : Select W :=
  { s with restrictions := s.restrictions.map (Comparison.map f) }

/-- What is left of `ALLOW FILTERING`, behind its first keyword. -/
def filtering? : Reader Unit := fun ts => do
  let ts ← expect? (Token.isWord "FILTERING") ts
  pure ((), ts)

/-- A statement. -/
def select? : Reader (Select (Slot Nat)) := fun ts => do
  let ts ← expect? (Token.isWord "SELECT") ts
  let (columns, ts) ← Sql.columns? ts
  let ts ← expect? (Token.isWord "FROM") ts
  let (keyspace, ts) ← Sql.name? ts
  let ts ← expect? (· == .sign ".") ts
  let (table, ts) ← Sql.name? ts
  let (restrictions, ts) ← clause? "WHERE" (separated? (Token.isWord "AND") restriction?) ts
  let (order, ts) ← clause? "ORDER" Sql.order? ts
  let (filtering, ts) ← clause? "ALLOW" filtering? ts
  pure (⟨columns, keyspace, table, restrictions.getD [], order.getD [], filtering.isSome⟩, ts)

/-- The statement of a text, which must end with it. -/
def parse? (text : String) : Option (Select (Slot Nat)) := do
  let ts ← Lexer.tokens? quotes text
  let (s, ts) ← select? (Lexer.numbered 0 ts)
  if ts.isEmpty then some s else none

/-- What a slot stands for: the question mark at a place for the parameter at that place. -/
def value? (ps : List (Parameter Native)) : Slot Nat → Option Native :=
  Slot.value? (fun n => (ps[n]?).map (·.value)) .null .list

/-! ## Restrictions -/

/-- The restrictions of a comparison: a range is two of them, the lower bound first. -/
def restrictionsOf (a : Comparison Value) : List (Comparison Value) :=
  match a.operator, a.value with
  | .between, .list [lower, upper] =>
    [⟨.greaterOrEqual, a.field, lower⟩, ⟨.lessOrEqual, a.field, upper⟩]
  | _, _ => [a]

/-- The restrictions of a condition, from left to right. -/
def restrictions (c : Condition) : List (Comparison Value) := c.formula.atoms.flatMap restrictionsOf

/-- The restrictions that a query asks for. -/
def conjunction (q : Query) : List (Comparison Value) := q.condition.toList.flatMap restrictions

section Converted

variable (schema : Option (SchemaLookup (Except QueryError))) (entity : String)

/-- The same comparison with the converted value, which for a choice is a list of converted
values. -/
def Converted (a : Comparison Value) (r : Comparison Native) : Prop :=
  r.operator = a.operator ∧ r.field = a.field ∧
    toNative schema ⟨entity, a.field⟩ a.value = .ok r.value

variable (R : Operator → Native → Native → Prop)

/-- The value of a column compares with another, with one of several, or with two bounds. How the
store compares two values is its own affair. -/
def Compares (x : Native) : Operator → Native → Prop
  | .oneOf, .list items => ∃ n ∈ items, R .equals x n
  | .between, .list [lower, upper] => R .greaterOrEqual x lower ∧ R .lessOrEqual x upper
  | o, n => R o x n

/-- The restriction holds of a row. -/
def Restricts (row : String → Native) (r : Comparison Native) : Prop :=
  Compares R (row r.field) r.operator r.value

/-- The comparison holds of a row: its value is converted, and the column compares with it. -/
def Satisfies (row : String → Native) (a : Comparison Value) : Prop :=
  ∃ n, toNative schema ⟨entity, a.field⟩ a.value = .ok n ∧ Compares R (row a.field) a.operator n

end Converted

end PortableQuery.Cql
