import PortableQuery.Document.ExtendedJson
import PortableQuery.Lowering.Dialect

/-!
# Queries as document commands

A `find` command whose filter is a document with the values in it. The identity is `_id` whatever
its portable name, and no field starts with `$`, so every `$` in a filter is an operator that was
put there here. Patterns become anchored regular expressions.
-/

namespace PortableQuery.Document

/-! ## Patterns as regular expressions -/

/-- The characters that mean something in a regular expression. -/
def metaCharacters : List Char :=
  ['\\', '.', '+', '*', '?', '(', ')', '|', '[', ']', '\x7b', '\x7d', '^', '$', '#', '&', '-', '~']

/-- A character that stands for itself. -/
def literalAtom (c : Char) : List Char := if c ∈ metaCharacters then ['\\', c] else [c]

/-- What one character of a pattern becomes. -/
def likeAtom (c : Char) : List Char :=
  if c = '%' then ['.', '*'] else if c = '_' then ['.'] else literalAtom c

/-- The characters of the regular expression of a pattern. -/
def regexChars (pattern : List Char) : List Char := '^' :: (pattern.flatMap likeAtom ++ ['$'])

/-- The regular expression of a pattern, anchored at both ends. -/
def regexOfLike (pattern : String) : String := String.ofList (regexChars pattern.toList)

/-! ## Commands -/

/-- What the store can express: everything but the negation of anything larger than a predicate. -/
def capabilities : Capabilities where
  operators := Operator.all
  and := true
  or := true
  negation := .predicates
  pointLookup := false
  paging := .offset

/-- The field of the identity. -/
def idField : String := "_id"

/-- The path of a field. -/
def path (config : CompilerConfig) (name : String) : String :=
  if config.isIdField name then idField else name

/-- A name as it is used in a document. -/
def identifier (name : String) : Except QueryError String :=
  if isDollar name then .error (.invalid (.dollarField name)) else .ok name

/-- The operator of a comparison with one value. -/
def comparison : Operator → String
  | .equals => "$eq"
  | .greater => "$gt"
  | .greaterOrEqual => "$gte"
  | .less => "$lt"
  | .lessOrEqual => "$lte"
  | .oneOf => "$in"
  | .like => "$regex"
  | .between => ""

/-- The operators of a predicate with their operands, which are recorded as parameters, too. -/
def operators (p : Predicate Json) (b : Binder Json) : Except QueryError (Json × Binder Json) :=
  match p.operator, p.operand with
  | .oneOf, .many values => do
    let (_, b) ← b.bindAll p.name values
    pure (.single "$in" (.array values), b)
  | .between, .range lower upper => do
    let (_, b) ← b.bindAll p.name [lower, upper]
    pure (.object [⟨"$gte", lower⟩, ⟨"$lte", upper⟩], b)
  | .like, .single (.string pattern) => do
    let regex := Json.string (regexOfLike pattern)
    let (_, b) ← b.bind p.name regex
    pure (.single "$regex" regex, b)
  | .oneOf, _ => .error (.invalid (.malformed .oneOf p.name))
  | .between, _ => .error (.invalid (.malformed .between p.name))
  | .like, _ => .error (.invalid (.malformed .like p.name))
  | o, .single value => do
    let (_, b) ← b.bind p.name value
    pure (.single (comparison o) value, b)
  | o, _ => .error (.invalid (.malformed o p.name))

/-- The filter of a predicate. -/
def lowerPredicate (p : Predicate Json) (b : Binder Json) :
    Except QueryError (Json × Binder Json) := do
  let _ ← identifier p.name
  let (ops, b) ← operators p b
  pure (.single p.path ops, b)

/-- Filters joined by a connective. -/
def join (connective : Connective) (parts : List Json) : Json :=
  .single (match connective with | .and => "$and" | .or => "$or") (.array parts)

/-- The negation of a filter on one field: its operators under `$not`. -/
def negate : Json → Except QueryError Json
  | .object [⟨field, ops⟩] =>
    if isDollar field then .error (.unsupported "document" "NOT")
    else .ok (.single field (.single "$not" ops))
  | _ => .error (.unsupported "document" "NOT")

/-! ## The command -/

/-- The member of a window's bound, unless it is zero. -/
def countMember (name : String) (n : UInt64) : List (Named Json) :=
  if 0 < n then [⟨name, .int n.toNat⟩] else []

/-- The fields of a projection, each marked with one. -/
def projectionMember (config : CompilerConfig) (projection : List String) : List (Named Json) :=
  if projection.isEmpty then []
  else [⟨"projection", .objectOf (projection.map fun f => ⟨path config f, .int 1⟩)⟩]

/-- The number of a direction. -/
def directionNumber : Direction → Int
  | .ascending => 1
  | .descending => -1

/-- The fields of an order, each with its direction. -/
def sortMember (config : CompilerConfig) (sorts : List SortKey) : List (Named Json) :=
  if sorts.isEmpty then []
  else
    [⟨"sort", .objectOf
      (sorts.map fun s => ⟨path config s.field, .int (directionNumber s.direction)⟩)⟩]

/-- All of the names can be used in a document. -/
def checkNames : List String → Except QueryError Unit
  | [] => .ok ()
  | name :: names => do
    let _ ← identifier name
    checkNames names

/-- The whole command. -/
def assemble (config : CompilerConfig) (q : Query) (l : Lowered Json Json) :
    Except QueryError (Statement Json Json) := do
  checkNames (q.projection ++ q.sorts.map (·.field))
  let command : List (Named Json) :=
    [⟨"find", .string q.entity⟩, ⟨"filter", l.filter.getD (.object [])⟩] ++
      projectionMember config q.projection ++ sortMember config q.sorts ++
      countMember "skip" q.skip ++ countMember "limit" q.limit
  pure (l.finish q q.entity (.object command))

/-- Commands of a document store. -/
def dialect (m : Type → Type) [Monad m] [MonadExceptOf QueryError m] : Dialect m Json Json where
  name := "document"
  capabilities := capabilities
  style := .inline
  field := path
  toNative scope v := MonadExcept.ofExcept (encode scope v)
  lower := lowerPredicate
  join c parts := .ok (join c parts)
  negate := negate
  assemble := assemble

end PortableQuery.Document
