import PortableQuery.Base64
import PortableQuery.Error
import PortableQuery.Json.Basic

/-!
# Values as plain JSON terms

For stores that take bare terms. Decimals, bytes, identifiers, moments and days become texts, so
they come back as texts; a double that is not finite, a repeated key and a user-defined value have
no plain form.
-/

namespace PortableQuery.Value

mutual

/-- The plain form of a value. -/
def toPlain (scope : Scope) : Value → Except QueryError Json
  | null => .ok .null
  | bool b => .ok (.bool b)
  | int i => .ok (.int i.toInt)
  | double (.finite d) => .ok (.double d)
  | double d => .error (scope.error (.nonFinite d))
  | decimal d => .ok (.string d.text)
  | text s => .ok (.string s)
  | bytes b => .ok (.string (Base64.encode Base64.standard b))
  | uuid u => .ok (.string u.text)
  | timestamp t => .ok (.string (t.text "+00:00"))
  | date d => .ok (.string d.text)
  | list items => do
    let js ← itemsToPlain scope items
    pure (.array js)
  | map entries => do
    let ms ← entriesToPlain scope [] entries
    pure (.object ms)
  | udt type _ => .error (scope.error (.plainUdt type))
termination_by structural v => v

/-- The plain form of each item. -/
def itemsToPlain (scope : Scope) : List Value → Except QueryError (List Json)
  | [] => .ok []
  | v :: vs => do
    let j ← toPlain scope v
    let js ← itemsToPlain scope vs
    pure (j :: js)
termination_by structural vs => vs

/-- The plain form of the entries behind the keys `seen`; a value belongs to the field of its key,
and a repeated key to the field of the map. -/
def entriesToPlain (scope : Scope) (seen : List String) :
    List (Named Value) → Except QueryError (List (Named Json))
  | [] => .ok []
  | ⟨key, v⟩ :: es => do
    let j ← toPlain (scope.nested key) v
    if key ∈ seen then throw (scope.error (.duplicateMapKey key))
    let ms ← entriesToPlain scope (key :: seen) es
    pure (⟨key, j⟩ :: ms)
termination_by structural es => es

end

/-- An integer as a value: a double where 64 bits do not hold it. -/
def ofInteger (i : Int) : Value :=
  if -2 ^ 63 ≤ i ∧ i < 2 ^ 63 then .int (Int64.ofInt i) else .double (.ofInt i)

theorem ofInteger_toInt (i : Int64) : ofInteger i.toInt = .int i := by
  have hlow := i.le_toInt
  have hhigh := i.toInt_lt
  rw [ofInteger, if_pos ⟨hlow, hhigh⟩, Int64.ofInt_toInt]

mutual

/-- The value of a plain term. -/
def ofPlain : Json → Value
  | .null => .null
  | .bool b => .bool b
  | .int i => ofInteger i
  | .double d => .double (.finite d)
  | .string s => .text s
  | .array items => .list (itemsOfPlain items)
  | .object members => .map (entriesOfPlain members)
termination_by structural j => j

/-- The value of each item. -/
def itemsOfPlain : List Json → List Value
  | [] => []
  | j :: js => ofPlain j :: itemsOfPlain js
termination_by structural js => js

/-- The value of each member, under its name. -/
def entriesOfPlain : List (Named Json) → List (Named Value)
  | [] => []
  | ⟨name, j⟩ :: ms => ⟨name, ofPlain j⟩ :: entriesOfPlain ms
termination_by structural ms => ms

end

end PortableQuery.Value
