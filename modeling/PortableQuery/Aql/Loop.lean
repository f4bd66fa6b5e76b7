import PortableQuery.Json.Plain
import PortableQuery.Json.Printer
import PortableQuery.Lowering.Dialect
import PortableQuery.Text.Name

/-!
# Queries in AQL

One loop over a collection, or over the documents of the keys that were split off. Values are bound
by name, and the configured identity is the attribute `_key`. A name that is no plain word, or a
keyword, stands in backticks, where a backslash and a backtick take a backslash before them.
-/

namespace PortableQuery.Aql

/-! ## Names -/

/-- The keywords. -/
def reservedWords : List String :=
  ["AGGREGATE", "ALL", "AND", "ANY", "ASC", "COLLECT", "DESC", "DISTINCT", "FALSE", "FILTER",
    "FOR", "GRAPH", "IN", "INBOUND", "INSERT", "INTO", "K_PATHS", "K_SHORTEST_PATHS", "LET",
    "LIKE", "LIMIT", "NONE", "NOT", "NULL", "OR", "OUTBOUND", "REMOVE", "REPLACE", "RETURN",
    "SEARCH", "SHORTEST_PATH", "SORT", "TRUE", "UPDATE", "UPSERT", "WINDOW", "WITH"]

/-- A character inside backticks. -/
def tickedChar (c : Char) : List Char := if c = '\\' ∨ c = '\x60' then ['\\', c] else [c]

/-- The name in backticks. -/
def ticked (name : String) : String :=
  String.ofList ('\x60' :: (name.toList.flatMap tickedChar ++ ['\x60']))

/-- A name as it is written in a statement. -/
def identifier (name : String) : String :=
  if Text.isPlainWord name && !Text.isReserved reservedWords name then name else ticked name

/-! ## Statements -/

/-- What the store can express: everything, by limit and offset, with key lookups. -/
def capabilities : Capabilities where
  operators := Operator.all
  and := true
  or := true
  negation := .any
  pointLookup := true
  paging := .offset

/-- The variable of the loop. -/
def loopVariable : String := "d"

/-- The name under which keys are bound. -/
def keysName : String := "keys"

/-- The attribute that holds the identity. -/
def keyAttribute : String := "_key"

/-- The count that stands for no limit where an offset needs one: the largest integer that the
store counts exactly. -/
def unboundedCount : Nat := 2 ^ 53 - 1

/-- The sign of a comparison with one value. -/
def comparison : Operator → String
  | .equals => "=="
  | .greater => ">"
  | .greaterOrEqual => ">="
  | .less => "<"
  | .lessOrEqual => "<="
  | .like => "LIKE"
  | .oneOf | .between => ""

/-- The attribute of a field, inside the loop. -/
def path (config : CompilerConfig) (name : String) : String :=
  loopVariable ++ "." ++ if config.isIdField name then keyAttribute else identifier name

/-- The filter of a predicate. -/
def lowerPredicate (p : Predicate Json) (b : Binder Json) :
    Except QueryError (String × Binder Json) :=
  match p.operator, p.operand with
  | .oneOf, .many values => do
    let (ps, b) ← b.bindAll p.name values
    pure (p.path ++ " IN [" ++ String.intercalate ", " ps ++ "]", b)
  | .between, .range lower upper => do
    let (l, b) ← b.bind p.name lower
    let (u, b) ← b.bind p.name upper
    pure ("(" ++ p.path ++ " >= " ++ l ++ " AND " ++ p.path ++ " <= " ++ u ++ ")", b)
  | .oneOf, _ => .error (.invalid (.malformed .oneOf p.name))
  | .between, _ => .error (.invalid (.malformed .between p.name))
  | o, .single value => do
    let (v, b) ← b.bind p.name value
    pure (p.path ++ " " ++ comparison o ++ " " ++ v, b)
  | o, _ => .error (.invalid (.malformed o p.name))

/-- Filters in parentheses, with the connective between them. -/
def join (connective : Connective) (parts : List String) : String :=
  String.intercalate (" " ++ connective.name ++ " ") (parts.map fun p => "(" ++ p ++ ")")

/-- The negation of a filter. -/
def negate (filter : String) : String := "NOT (" ++ filter ++ ")"

/-! ## The statement -/

/-- The keyword of a direction. -/
def directionWord : Direction → String
  | .ascending => "ASC"
  | .descending => "DESC"

/-- What the loop runs over. -/
def source (collection : String) (byKey : Bool) : String :=
  if byKey then "DOCUMENT(" ++ JsonText.quoted collection ++ ", @" ++ keysName ++ ")"
  else identifier collection

/-- A clause for a filter, if there is one. -/
def filterClause : Option String → String
  | some f => " FILTER " ++ f
  | none => ""

/-- A clause for an order, if there is one. -/
def sortClause (config : CompilerConfig) (sorts : List SortKey) : String :=
  if sorts.isEmpty then ""
  else
    " SORT " ++ String.intercalate ", "
      (sorts.map fun s => path config s.field ++ " " ++ directionWord s.direction)

/-- A clause for the window; an offset needs a count, also where there is no limit. -/
def limitClause (skip limit : UInt64) : String :=
  if skip = 0 then if limit = 0 then "" else " LIMIT " ++ toString limit
  else
    let count := if limit = 0 then toString unboundedCount else toString limit
    " LIMIT " ++ toString skip ++ ", " ++ count

/-- What the loop returns: the document, or the attributes of the projection. -/
def returnClause (config : CompilerConfig) (projection : List String) : String :=
  if projection.isEmpty then " RETURN " ++ loopVariable
  else
    " RETURN KEEP(" ++ loopVariable ++ ", " ++ String.intercalate ", "
      (projection.map fun f =>
        JsonText.quoted (if config.isIdField f then keyAttribute else f)) ++ ")"

/-- The lowering with its keys bound behind everything else. -/
def bindKeys (l : Lowered String Json) : Except QueryError (Lowered String Json) :=
  if l.keyLookup.isEmpty then .ok l
  else if l.parameters.any (·.name == some keysName) then .error (.bindingConflict keysName)
  else .ok { l with parameters := l.parameters ++ [⟨some keysName, .array l.keyLookup⟩] }

/-- The whole statement. -/
def assemble (config : CompilerConfig) (q : Query) (l : Lowered String Json) :
    Except QueryError (Statement String Json) := do
  let l ← bindKeys l
  let text :=
    "FOR " ++ loopVariable ++ " IN " ++ source q.entity (!l.keyLookup.isEmpty) ++
      filterClause l.filter ++ sortClause config q.sorts ++ limitClause q.skip q.limit ++
      returnClause config q.projection
  pure (l.finish q q.entity text)

/-- AQL. -/
def dialect (m : Type → Type) [Monad m] [MonadExceptOf QueryError m] : Dialect m String Json where
  name := "aql"
  capabilities := capabilities
  style := .named '@'
  field := path
  toNative scope v := MonadExcept.ofExcept (v.toPlain scope)
  lower := lowerPredicate
  join c parts := .ok (join c parts)
  negate f := .ok (negate f)
  assemble := assemble

end PortableQuery.Aql
