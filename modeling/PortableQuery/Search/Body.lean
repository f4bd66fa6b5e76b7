import PortableQuery.Json.Plain
import PortableQuery.Lowering.Dialect

/-!
# Queries as search bodies

All entities share one index and are told apart by a field that carries their name, so a body always
asks for that name and then for the condition. Keys become an `ids` clause, and a query beyond the
result window is refused.
-/

namespace PortableQuery.Search

/-! ## Patterns as wildcards -/

/-- What one character of a pattern becomes. -/
def wildcardAtom (c : Char) : List Char :=
  if c = '%' then ['*']
  else if c = '_' then ['?']
  else if c = '*' ∨ c = '?' ∨ c = '\\' then ['\\', c]
  else [c]

/-- The characters of the wildcard of a pattern. -/
def wildcardChars (pattern : List Char) : List Char := pattern.flatMap wildcardAtom

/-- The wildcard of a pattern. -/
def wildcardOfLike (pattern : String) : String := String.ofList (wildcardChars pattern.toList)

/-! ## Bodies -/

/-- An index, and the field that carries the name of a document's entity. -/
structure Index where
  name : String
  discriminator : String := "@entity"
deriving Repr

/-- What the store can express: everything, by limit and offset, with key lookups. -/
def capabilities : Capabilities where
  operators := Operator.all
  and := true
  or := true
  negation := .any
  pointLookup := true
  paging := .offset

/-- The field of the identity. -/
def idField : String := "_id"

/-- A name as it is used in a body: as it is. -/
def identifier (name : String) : String := name

/-- The path of a field. -/
def path (config : CompilerConfig) (name : String) : String :=
  if config.isIdField name then idField else identifier name

/-- A query of some kind on one field. -/
def leaf (kind path : String) (body : Json) : Json := .single kind (.single path body)

/-- The bound that a comparison sets. -/
def boundName? : Operator → Option String
  | .greater => some "gt"
  | .greaterOrEqual => some "gte"
  | .less => some "lt"
  | .lessOrEqual => some "lte"
  | _ => none

/-- The query of a predicate; its values are recorded as parameters, too. -/
def lowerPredicate (p : Predicate Json) (b : Binder Json) :
    Except QueryError (Json × Binder Json) :=
  match p.operator, p.operand with
  | o, .single .null => .error (.invalid (.nullOperand .matchLower o p.name))
  | .equals, .single value => do
    let (_, b) ← b.bind p.name value
    pure (leaf "term" p.path value, b)
  | .oneOf, .many values => do
    let (_, b) ← b.bindAll p.name values
    pure (leaf "terms" p.path (.array values), b)
  | .like, .single (.string pattern) => do
    let wildcard := Json.string (wildcardOfLike pattern)
    let (_, b) ← b.bind p.name wildcard
    pure (leaf "wildcard" p.path (.single "value" wildcard), b)
  | .between, .range lower upper => do
    let (_, b) ← b.bindAll p.name [lower, upper]
    pure (leaf "range" p.path (.object [⟨"gte", lower⟩, ⟨"lte", upper⟩]), b)
  | o, .single value =>
    match boundName? o with
    | some bound => do
      let (_, b) ← b.bind p.name value
      pure (leaf "range" p.path (.single bound value), b)
    | none => .error (.invalid (.malformed o p.name))
  | o, _ => .error (.invalid (.malformed o p.name))

/-- Queries joined by a connective. -/
def join (connective : Connective) (parts : List Json) : Json :=
  match connective with
  | .and => .single "bool" (.single "must" (.array parts))
  | .or =>
    .single "bool" (.object [⟨"should", .array parts⟩, ⟨"minimum_should_match", .int 1⟩])

/-- The negation of a query. -/
def negate (query : Json) : Json := .single "bool" (.single "must_not" (.array [query]))

/-! ## The body -/

/-- The difference, but not below zero. -/
def minusUpTo (a b : UInt64) : UInt64 := if a ≤ b then 0 else a - b

/-- The sum, but not above the largest number of 64 bits. -/
def plusUpTo (a b : UInt64) : UInt64 := UInt64.ofNat (min (a.toNat + b.toNat) (2 ^ 64 - 1))

/-- The number of rows to ask for: the limit, or what the window leaves behind the rows skipped. -/
def size (window skip limit : UInt64) : UInt64 :=
  if 0 < limit then limit else minusUpTo window skip

/-- The rows skipped and asked for lie within the window. -/
def fits (window skip size : UInt64) : Bool := !(window < plusUpTo skip size)

/-- What every result must satisfy: the entity, the keys and the condition. -/
def clauses (index : Index) (q : Query) (l : Lowered Json Json) : List Json :=
  [leaf "term" index.discriminator (.string q.entity)] ++
    (if l.keyLookup.isEmpty then [] else [.single "ids" (.single "values" (.array l.keyLookup))]) ++
    l.filter.toList

/-- The fields of a projection. -/
def sourceMember (config : CompilerConfig) (projection : List String) : List (Named Json) :=
  if projection.isEmpty then []
  else [⟨"_source", .array (projection.map fun f => .string (path config f))⟩]

/-- The word of a direction. -/
def directionWord : Direction → String
  | .ascending => "asc"
  | .descending => "desc"

/-- The entries of an order. -/
def sortMember (config : CompilerConfig) (sorts : List SortKey) : List (Named Json) :=
  if sorts.isEmpty then []
  else
    [⟨"sort", .array (sorts.map fun s =>
      .single (path config s.field) (.single "order" (.string (directionWord s.direction))))⟩]

/-- The number of rows to skip, unless it is zero. -/
def fromMember (skip : UInt64) : List (Named Json) :=
  if 0 < skip then [⟨"from", .int skip.toNat⟩] else []

/-- The whole body. -/
def assemble (index : Index) (config : CompilerConfig) (q : Query) (l : Lowered Json Json) :
    Except QueryError (Statement Json Json) :=
  let window := config.maxResultWindow
  let rows := size window q.skip q.limit
  if fits window q.skip rows then
    let body : List (Named Json) :=
      [⟨"query", .single "bool" (.single "filter" (.array (clauses index q l)))⟩] ++
        sourceMember config q.projection ++ sortMember config q.sorts ++ fromMember q.skip ++
        [⟨"size", .int rows.toNat⟩]
    .ok (l.finish q index.name (.object body))
  else .error (.invalid (.window q.skip rows window))

/-- Bodies of searches in an index. -/
def dialect (m : Type → Type) [Monad m] [MonadExceptOf QueryError m] (index : Index) :
    Dialect m Json Json where
  name := "search"
  capabilities := capabilities
  style := .inline
  field := path
  toNative scope v := MonadExcept.ofExcept (v.toPlain scope)
  lower := lowerPredicate
  join c parts := .ok (join c parts)
  negate q := .ok (negate q)
  assemble := assemble index

end PortableQuery.Search
