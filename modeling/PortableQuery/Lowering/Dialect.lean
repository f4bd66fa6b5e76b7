import PortableQuery.Lowering.Binder
import PortableQuery.Lowering.Capabilities
import PortableQuery.Query

/-!
# Dialects

What is particular to one store. `F` is the form of filters and statements, text or a document; `N`
is the form of values. Converting a value may consult a schema, so it runs in the monad `m`;
everything else is pure.
-/

namespace PortableQuery

/-- The converted right-hand side of a predicate. -/
inductive Operand (N : Type) where
  | single (value : N)
  | range (lower upper : N)
  | many (values : List N)
deriving Repr

/-- A predicate, ready to be lowered. The name is the portable one, the path the one that the
dialect gave it. -/
structure Predicate (N : Type) where
  operator : Operator
  name : String
  path : String
  operand : Operand N
deriving Repr

/-- A lowered condition: its filter, the values bound in it, and the keys to look up instead of
searching for them. -/
structure Lowered (F N : Type) where
  filter : Option F
  parameters : List (Parameter N)
  keyLookup : List N
deriving Repr

/-- The lowering of no condition at all. -/
def Lowered.empty {F N : Type} : Lowered F N := ⟨none, [], []⟩

/-- A statement in a store's language. -/
structure Statement (F N : Type) where
  /-- The portable name of what is read. -/
  entity : String
  /-- The table, collection or index. -/
  target : String
  statement : F
  /-- The lowered condition alone. -/
  filter : Option F
  parameters : List (Parameter N)
  keyLookup : List N
  /-- The page size, for stores that page by cursor. -/
  fetchSize : Option UInt64
  /-- Where to continue, for stores that page by cursor. -/
  pagingState : Option CursorToken
deriving Repr

namespace Statement

variable {F N : Type}

/-- The value of a named parameter. -/
def parameter? (s : Statement F N) (name : String) : Option N :=
  (s.parameters.find? (·.name == some name)).map (·.value)

/-- The statement fetches by key. -/
def isPointLookup (s : Statement F N) : Bool := !s.keyLookup.isEmpty

end Statement

/-- The statement of a lowered condition, without paging. -/
def Lowered.finish {F N : Type} (l : Lowered F N) (q : Query) (target : String) (statement : F) :
    Statement F N where
  entity := q.entity
  target := target
  statement := statement
  filter := l.filter
  parameters := l.parameters
  keyLookup := l.keyLookup
  fetchSize := none
  pagingState := none

/-- A store's language. -/
structure Dialect (m : Type → Type) (F N : Type) where
  name : String
  capabilities : Capabilities
  style : ParamStyle
  /-- The path of a portable field. -/
  field : CompilerConfig → String → String
  /-- A value in the form that the store takes. -/
  toNative : Scope → Value → m N
  lower : Predicate N → Binder N → Except QueryError (F × Binder N)
  join : Connective → List F → Except QueryError F
  negate : F → Except QueryError F
  assemble : CompilerConfig → Query → Lowered F N → Except QueryError (Statement F N)

end PortableQuery
