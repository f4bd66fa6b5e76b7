import PortableQuery.Lowering.Dialect
import PortableQuery.Text.Name

/-!
# Queries in SQL

One `SELECT` with numbered placeholders. Filters are joined and negated in parentheses, a comparison
of equality with null reads `IS NULL`, and no other comparison with null is one. A name that is not
of small letters, digits and underscores, or that is reserved, is quoted.
-/

namespace PortableQuery.Sql

/-! ## Names -/

/-- The words that cannot be names without quotes. -/
def reservedWords : List String :=
  ["ALL", "ANALYSE", "ANALYZE", "AND", "ANY", "ARRAY", "AS", "ASC", "ASYMMETRIC", "BOTH", "CASE",
    "CAST", "CHECK", "COLLATE", "COLUMN", "CONSTRAINT", "CREATE", "CURRENT_CATALOG",
    "CURRENT_DATE", "CURRENT_ROLE", "CURRENT_TIME", "CURRENT_TIMESTAMP", "CURRENT_USER",
    "DEFAULT", "DEFERRABLE", "DESC", "DISTINCT", "DO", "ELSE", "END", "EXCEPT", "FALSE", "FETCH",
    "FOR", "FOREIGN", "FROM", "GRANT", "GROUP", "HAVING", "IN", "INITIALLY", "INTERSECT", "INTO",
    "LATERAL", "LEADING", "LIMIT", "LOCALTIME", "LOCALTIMESTAMP", "NOT", "NULL", "OFFSET", "ON",
    "ONLY", "OR", "ORDER", "PLACING", "PRIMARY", "REFERENCES", "RETURNING", "SELECT",
    "SESSION_USER", "SOME", "SYMMETRIC", "TABLE", "THEN", "TO", "TRAILING", "TRUE", "UNION",
    "UNIQUE", "USER", "USING", "VARIADIC", "WHEN", "WHERE", "WINDOW", "WITH"]

/-- The name is a reserved word, whatever its case. -/
def isReserved (name : String) : Bool := Text.isReserved reservedWords name

/-- The name can stand without quotes. -/
def isPlain (name : String) : Bool := Text.isLowerSnake name && !isReserved name

/-- A name as it is written in a statement. -/
def identifier (name : String) : String :=
  if isPlain name then name else Text.doubleQuoted name

/-- A table, in its schema if it has one. -/
def qualified (schema : Option String) (table : String) : String :=
  match schema with
  | some s => identifier s ++ "." ++ identifier table
  | none => identifier table

/-! ## Statements -/

/-- What the store can express: everything, by limit and offset, without key lookups. -/
def capabilities : Capabilities where
  operators := Operator.all
  and := true
  or := true
  negation := .any
  pointLookup := false
  paging := .offset

/-- The sign of a comparison with one value. -/
def comparison : Operator → String
  | .equals => "="
  | .greater => ">"
  | .greaterOrEqual => ">="
  | .less => "<"
  | .lessOrEqual => "<="
  | .like => "LIKE"
  | .oneOf | .between => ""

/-- A value as it is bound: itself, unless it is user-defined. -/
def toNative (scope : Scope) : Value → Except QueryError Value
  | .udt type _ => .error (scope.error (.sqlUdt type))
  | v => .ok v

/-- The filter of a predicate. -/
def lowerPredicate (p : Predicate Value) (b : Binder Value) :
    Except QueryError (String × Binder Value) :=
  match p.operator, p.operand with
  | .equals, .single .null => .ok (p.path ++ " IS NULL", b)
  | o, .single .null => .error (.invalid (.nullOperand .compareUpper o p.name))
  | .oneOf, .many values => do
    let (ps, b) ← b.bindAll p.name values
    pure (p.path ++ " IN (" ++ String.intercalate ", " ps ++ ")", b)
  | .between, .range lower upper => do
    let (l, b) ← b.bind p.name lower
    let (u, b) ← b.bind p.name upper
    pure (p.path ++ " BETWEEN " ++ l ++ " AND " ++ u, b)
  | o, .single value => do
    let (v, b) ← b.bind p.name value
    pure (p.path ++ " " ++ comparison o ++ " " ++ v, b)
  | o, _ => .error (.invalid (.malformed o p.name))

/-- Filters in parentheses, with the connective between them. -/
def join (connective : Connective) (parts : List String) : String :=
  String.intercalate (" " ++ connective.name ++ " ") (parts.map fun p => "(" ++ p ++ ")")

/-- The negation of a filter. -/
def negate (filter : String) : String := "NOT (" ++ filter ++ ")"

/-- The keyword of a direction. -/
def directionWord : Direction → String
  | .ascending => "ASC"
  | .descending => "DESC"

/-- The columns of a projection. -/
def columns (projection : List String) : String :=
  if projection.isEmpty then "*" else String.intercalate ", " (projection.map identifier)

/-- A clause for a filter, if there is one. -/
def whereClause : Option String → String
  | some f => " WHERE " ++ f
  | none => ""

/-- A clause for an order, if there is one. -/
def orderClause (sorts : List SortKey) : String :=
  if sorts.isEmpty then ""
  else
    " ORDER BY " ++ String.intercalate ", "
      (sorts.map fun s => identifier s.field ++ " " ++ directionWord s.direction)

/-- A clause for a number of rows, unless it is zero. -/
def countClause (keyword : String) (n : UInt64) : String :=
  if 0 < n then " " ++ keyword ++ " " ++ toString n else ""

/-- The whole statement. -/
def assemble (schema : Option String) (q : Query) (l : Lowered String Value) :
    Statement String Value :=
  let table := qualified schema q.entity
  l.finish q table
    ("SELECT " ++ columns q.projection ++ " FROM " ++ table ++ whereClause l.filter ++
      orderClause q.sorts ++ countClause "LIMIT" q.limit ++ countClause "OFFSET" q.skip)

/-- SQL, every table being in `schema` if one is given. -/
def dialect (m : Type → Type) [Monad m] [MonadExceptOf QueryError m] (schema : Option String) :
    Dialect m String Value where
  name := "sql"
  capabilities := capabilities
  style := .dollar
  field _ name := identifier name
  toNative scope v := MonadExcept.ofExcept (toNative scope v)
  lower := lowerPredicate
  join c parts := .ok (join c parts)
  negate f := .ok (negate f)
  assemble _ q l := .ok (assemble schema q l)

end PortableQuery.Sql
