import PortableQuery.Json.Plain
import PortableQuery.Lowering.Binder

/-!
# Binding the parameters of a SQL statement

A list or a map is bound as a JSON document, every other value as it is, and a user-defined value
not at all. A parameter without a name is known by its position.
-/

namespace PortableQuery.Sql

/-- What is handed to the store for a parameter. -/
inductive BoundValue where
  | plain (value : Value)
  | document (json : Json)
deriving Repr

/-- What is handed to the store for a value. -/
def boundValue (scope : Scope) : Value → Except QueryError BoundValue
  | .list items => (Value.toPlain scope (.list items)).map .document
  | .map entries => (Value.toPlain scope (.map entries)).map .document
  | .udt type _ => .error (scope.error (.sqlUdt type))
  | v => .ok (.plain v)

/-- What is handed to the store for the parameters from position `i` on. -/
def bindFrom (entity : String) : Nat → List (Parameter Value) →
    Except QueryError (List BoundValue)
  | _, [] => .ok []
  | i, p :: ps => do
    let v ← boundValue ⟨entity, p.name.getD ("$" ++ toString i)⟩ p.value
    let vs ← bindFrom entity (i + 1) ps
    pure (v :: vs)

/-- What is handed to the store for the parameters of a statement on `entity`. -/
def bindParameters (entity : String) (ps : List (Parameter Value)) :
    Except QueryError (List BoundValue) :=
  bindFrom entity 1 ps

end PortableQuery.Sql
