import PortableQuery.Error
import PortableQuery.Schema.FieldType

/-!
# Looking declared types up

A schema declares user-defined types entity by entity. It is asked through a *lookup*, which may
count the questions or remember the answers.
-/

namespace PortableQuery

/-- An entity, and the name of a type that is visible from it. -/
abbrev TypeKey := String × String

/-- User-defined types by entity and name, the latest declaration first. -/
structure Schema where
  types : List (TypeKey × UserType) := []
deriving Repr

namespace Schema

/-- The schema with one more declaration. -/
def declare (s : Schema) (entity : String) (t : UserType) : Schema :=
  ⟨((entity, t.name), t) :: s.types⟩

/-- The declaration of a type that counts. -/
def userType? (s : Schema) (entity type : String) : Option UserType :=
  s.types.lookup (entity, type)

end Schema

/-- How a type is asked for: by entity and name. -/
abbrev SchemaLookup (m : Type → Type) := String → String → m (Option UserType)

/-! ## What is not declared -/

section Resolve

variable {m : Type → Type} [Monad m] [MonadExceptOf QueryError m]

/-- The declaration of a type that the value of `field` needs. -/
def resolveType (ask : SchemaLookup m) (scope : Scope) (type : String) : m UserType := do
  match ← ask scope.entity type with
  | some t => pure t
  | none => throw (scope.error (.undeclaredType type))

/-- The declared type of a field. -/
def declaredField (t : UserType) (scope : Scope) : Except QueryError FieldType :=
  match t.fieldType? scope.field with
  | some type => .ok type
  | none => .error (scope.error (.undeclaredField scope.field t.name))

/-- The declared type of a field of a type that is still to be asked for. -/
def resolveField (ask : SchemaLookup m) (scope : Scope) (type : String) : m FieldType := do
  let t ← resolveType ask scope type
  MonadExcept.ofExcept (declaredField t scope)

end Resolve

/-! ## Counting questions -/

/-- A schema, and how often it has been asked. -/
structure SchemaSource where
  schema : Schema := {}
  calls : Nat := 0
deriving Repr

namespace SchemaSource

/-- Ask the schema. -/
def ask : SchemaLookup (StateM SchemaSource) := fun entity type => do
  let source ← get
  set { source with calls := source.calls + 1 }
  pure (source.schema.userType? entity type)

/-- Declare a type in the schema. -/
def declare (source : SchemaSource) (entity : String) (t : UserType) : SchemaSource :=
  { source with schema := source.schema.declare entity t }

end SchemaSource

end PortableQuery
