import PortableQuery.Base64
import PortableQuery.Error
import PortableQuery.Text.Printing

/-!
# Queries

What to read: an entity, a condition, the fields wanted, an order, a window and, for stores that
page by cursor, where to continue: at bytes that mean nothing to anyone but the store, whose text is
URL-safe base64 without padding.
-/

namespace PortableQuery

/-! ## Cursor tokens -/

/-- A continuation token. -/
structure CursorToken where
  bytes : List UInt8
deriving DecidableEq, Repr

namespace CursorToken

/-- The text of a token. -/
def text (t : CursorToken) : String := Base64.encode Base64.urlSafe t.bytes

/-- The token of a text, white space around it aside. -/
def read (s : String) : Except QueryError CursorToken :=
  let trimmed := Text.trim s
  if trimmed.isEmpty then .error (.invalid .emptyCursor)
  else
    match Base64.decode Base64.urlSafe trimmed with
    | .ok bytes => .ok ⟨bytes⟩
    | .error e => .error (.invalid (.malformedCursor e))

end CursorToken

/-! ## Queries -/

/-- The direction of an order. -/
inductive Direction where
  | ascending
  | descending
deriving DecidableEq, Repr

/-- One entry of an order. -/
structure SortKey where
  field : String
  direction : Direction
deriving DecidableEq, Repr

/-- A portable query; no projection means all fields, and a limit of zero means no limit. -/
structure Query where
  entity : String
  condition : Option Condition := none
  projection : List String := []
  sorts : List SortKey := []
  limit : UInt64 := 0
  skip : UInt64 := 0
  cursor : Option CursorToken := none
deriving Repr

/-- The same query, continuing at `cursor`. -/
def Query.withCursor (q : Query) (cursor : Option CursorToken) : Query :=
  { q with cursor := cursor }

@[simp] theorem Query.withCursor_eq (q : Query) (cursor : Option CursorToken) :
    q.withCursor cursor = { q with cursor := cursor } := rfl

/-- A query under construction. -/
structure QueryBuilder where
  query : Query

namespace QueryBuilder

/-- A query for all of an entity. -/
def start (entity : String) : QueryBuilder := ⟨{ entity := entity }⟩

/-- Set the condition. -/
def condition (b : QueryBuilder) (c : Condition) : QueryBuilder :=
  ⟨{ b.query with condition := some c }⟩

/-- Add fields to the projection, except those that it has. -/
def select (b : QueryBuilder) (fields : List String) : QueryBuilder :=
  ⟨{ b.query with
      projection := fields.foldl (fun done f => if f ∈ done then done else done ++ [f])
        b.query.projection }⟩

/-- Add an entry to the order. -/
def sort (b : QueryBuilder) (s : SortKey) : QueryBuilder :=
  ⟨{ b.query with sorts := b.query.sorts ++ [s] }⟩

/-- Set the limit. -/
def limit (b : QueryBuilder) (n : UInt64) : QueryBuilder := ⟨{ b.query with limit := n }⟩

/-- Set the number of rows to skip. -/
def skip (b : QueryBuilder) (n : UInt64) : QueryBuilder := ⟨{ b.query with skip := n }⟩

/-- Continue at a cursor. -/
def cursor (b : QueryBuilder) (t : CursorToken) : QueryBuilder :=
  ⟨{ b.query with cursor := some t }⟩

/-- The finished query. -/
def build (b : QueryBuilder) : Except QueryError Query :=
  if b.query.entity.isEmpty then .error (.invalid .emptyEntity) else .ok b.query

end QueryBuilder

/-! ## Settings -/

/-- The settings that every dialect compiles under. -/
structure CompilerConfig where
  idField : String := "_id"
  pointLookup : Bool := true
  maxResultWindow : UInt64 := 10000
deriving DecidableEq, Repr

/-- The element that carries the identity has this name. -/
def CompilerConfig.isIdField (c : CompilerConfig) (name : String) : Bool := c.idField == name

end PortableQuery
