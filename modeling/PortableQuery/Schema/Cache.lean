import PortableQuery.Schema.Source

/-!
# Remembering declared types

A cache in front of a schema: a pair of entity and type is asked for once and its answer kept, also
the answer that there is no such type, until the cache is told to forget.
-/

namespace PortableQuery

/-- A schema, and the answers that it has given. -/
structure SchemaCache where
  source : SchemaSource := {}
  entries : List (TypeKey × Option UserType) := []
deriving Repr

namespace SchemaCache

/-- Answer from memory, or ask the schema and remember. -/
def ask : SchemaLookup (StateM SchemaCache) := fun entity type => do
  let cache ← get
  match cache.entries.lookup (entity, type) with
  | some answer => pure answer
  | none =>
    let (answer, source) := SchemaSource.ask entity type cache.source
    set (⟨source, ((entity, type), answer) :: cache.entries⟩ : SchemaCache)
    pure answer

/-- How many answers are remembered. -/
def size (cache : SchemaCache) : Nat := cache.entries.length

/-- Forget every answer. -/
def invalidate (cache : SchemaCache) : SchemaCache := { cache with entries := [] }

/-- Declare a type in the schema behind the cache, which does not notice. -/
def declare (cache : SchemaCache) (entity : String) (t : UserType) : SchemaCache :=
  { cache with source := cache.source.declare entity t }

end SchemaCache

end PortableQuery
