import PortableQuery.Cql.Native
import PortableQuery.Lowering.Dialect
import PortableQuery.Text.Name

/-!
# Queries in CQL

A conjunction of restrictions and nothing else: no disjunction, no negation, no patterns. The order
is by clustering columns only, and the store pages by itself, so the limit becomes the page size and
the cursor is handed on.
-/

namespace PortableQuery.Cql

/-! ## Names -/

/-- The words that cannot be names without quotes. -/
def reservedWords : List String :=
  ["ADD", "ALLOW", "ALTER", "AND", "APPLY", "ASC", "AUTHORIZE", "BATCH", "BEGIN", "BY",
    "COLUMNFAMILY", "CREATE", "DELETE", "DESC", "DESCRIBE", "DROP", "ENTRIES", "EXECUTE", "FROM",
    "FULL", "GRANT", "IF", "IN", "INDEX", "INFINITY", "INSERT", "INTO", "KEYSPACE", "LIMIT",
    "MODIFY", "NAN", "NORECURSIVE", "NOT", "NULL", "OF", "ON", "OR", "ORDER", "PRIMARY", "RENAME",
    "REPLACE", "REVOKE", "SCHEMA", "SELECT", "SET", "TABLE", "TO", "TOKEN", "TRUNCATE",
    "UNLOGGED", "UPDATE", "USE", "USING", "VIEW", "WHERE", "WITH"]

/-- A name as it is written in a statement. -/
def identifier (name : String) : String :=
  if Text.isLowerSnake name && !Text.isReserved reservedWords name then name
  else Text.doubleQuoted name

/-! ## Statements -/

/-- A keyspace, the columns that its tables may be sorted by, and whether filtered statements ask to
be allowed. -/
structure Keyspace where
  name : String
  clustering : List String := []
  allowFiltering : Bool := false
deriving Repr

/-- What the store can express. -/
def capabilities : Capabilities where
  operators := [.equals, .greater, .greaterOrEqual, .less, .lessOrEqual, .oneOf, .between]
  and := true
  or := false
  negation := .unsupported
  pointLookup := false
  paging := .cursor

/-- The sign of a comparison with one value. -/
def comparison : Operator → String
  | .equals => "="
  | .greater => ">"
  | .greaterOrEqual => ">="
  | .less => "<"
  | .lessOrEqual => "<="
  | .oneOf | .like | .between => ""

/-- The restriction of a predicate; a range is two of them. -/
def lowerPredicate (p : Predicate Native) (b : Binder Native) :
    Except QueryError (String × Binder Native) :=
  match p.operator, p.operand with
  | o, .single .null => .error (.invalid (.nullOperand .compareLower o p.name))
  | .oneOf, .many values => do
    let (ps, b) ← b.bindAll p.name values
    pure (p.path ++ " IN (" ++ String.intercalate ", " ps ++ ")", b)
  | .between, .range lower upper => do
    let (l, b) ← b.bind p.name lower
    let (u, b) ← b.bind p.name upper
    pure (p.path ++ " >= " ++ l ++ " AND " ++ p.path ++ " <= " ++ u, b)
  | .like, _ => .error (.invalid (.malformed .like p.name))
  | o, .single value => do
    let (v, b) ← b.bind p.name value
    pure (p.path ++ " " ++ comparison o ++ " " ++ v, b)
  | o, _ => .error (.invalid (.malformed o p.name))

/-- Restrictions side by side; they can only be joined by `AND`. -/
def join (connective : Connective) (parts : List String) : Except QueryError String :=
  match connective with
  | .and => .ok (String.intercalate " AND " parts)
  | .or => .error (.unsupported "cql" "OR")

/-- The keyword of a direction. -/
def directionWord : Direction → String
  | .ascending => "ASC"
  | .descending => "DESC"

/-- The columns of a projection. -/
def columns (projection : List String) : String :=
  if projection.isEmpty then "*" else String.intercalate ", " (projection.map identifier)

/-- A clause for a filter, if there is one. -/
def whereClause : Option String → String
  | some f => " WHERE " ++ f
  | none => ""

/-- The entries of an order, each by a clustering column. -/
def orderEntries (k : Keyspace) (entity : String) :
    List SortKey → Except QueryError (List String)
  | [] => .ok []
  | s :: ss => do
    if s.field ∉ k.clustering then throw (.invalid (.unsortable s.field entity))
    let rest ← orderEntries k entity ss
    pure ((identifier s.field ++ " " ++ directionWord s.direction) :: rest)

/-- A clause for an order, if there is one. -/
def orderClause (k : Keyspace) (entity : String) (sorts : List SortKey) :
    Except QueryError String := do
  let entries ← orderEntries k entity sorts
  pure (if entries.isEmpty then "" else " ORDER BY " ++ String.intercalate ", " entries)

/-- The whole statement, its page size and where it continues. -/
def assemble (k : Keyspace) (q : Query) (l : Lowered String Native) :
    Except QueryError (Statement String Native) := do
  let table := identifier k.name ++ "." ++ identifier q.entity
  let order ← orderClause k q.entity q.sorts
  let filtering := if k.allowFiltering && l.filter.isSome then " ALLOW FILTERING" else ""
  let text :=
    "SELECT " ++ columns q.projection ++ " FROM " ++ table ++ whereClause l.filter ++ order ++
      filtering
  pure
    { l.finish q table text with
      fetchSize := if 0 < q.limit then some q.limit else none
      pagingState := q.cursor }

/-- CQL in a keyspace; user-defined values need a schema. -/
def dialect {m : Type → Type} [Monad m] [MonadExceptOf QueryError m] (k : Keyspace)
    (schema : Option (SchemaLookup m)) : Dialect m String Native where
  name := "cql"
  capabilities := capabilities
  style := .question
  field _ name := identifier name
  toNative scope v := toNative schema scope v
  lower := lowerPredicate
  join := join
  negate _ := .error (.unsupported "cql" "NOT")
  assemble _ q l := assemble k q l

end PortableQuery.Cql
