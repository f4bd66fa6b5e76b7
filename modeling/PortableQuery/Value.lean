import PortableQuery.Calendar.Timestamp
import PortableQuery.Named
import PortableQuery.Number.Decimal
import PortableQuery.Number.Double
import PortableQuery.Uuid

/-!
# Values and entities

The portable values: scalars, moments and days, lists, ordered maps and named user-defined values.
A map keeps the order of its entries and may name one twice; a nested row is carried as a map.
-/

namespace PortableQuery

/-- A portable value. -/
inductive Value where
  | null
  | bool (b : Bool)
  | int (i : Int64)
  | double (d : Double)
  | decimal (d : Decimal)
  | text (s : String)
  | bytes (bytes : List UInt8)
  | uuid (u : Uuid)
  | timestamp (t : Timestamp)
  | date (d : Date)
  | list (items : List Value)
  | map (entries : List (Named Value))
  | udt (type : String) (fields : List (Named Value))
deriving Repr

/-- A named value: a column of a row or a field of a document. -/
abbrev Element := Named Value

namespace Value

/-- The short name of a value's kind. -/
def kind : Value → String
  | null => "null"
  | bool _ => "bool"
  | int _ => "int"
  | double _ => "double"
  | decimal _ => "decimal"
  | text _ => "text"
  | bytes _ => "bytes"
  | uuid _ => "uuid"
  | timestamp _ => "timestamp"
  | date _ => "date"
  | list _ => "list"
  | map _ => "map"
  | udt _ _ => "udt"

/-- The value is null. -/
def isNull : Value → Bool
  | null => true
  | _ => false

/-- The value holds no other values. -/
def isScalar : Value → Bool
  | list _ | map _ | udt _ _ => false
  | _ => true

/-- The items of a list. -/
def items? : Value → Option (List Value)
  | list items => some items
  | _ => none

/-- The characters of a text. -/
def string? : Value → Option String
  | text s => some s
  | _ => none

theorem isNull_iff {v : Value} : v.isNull = true ↔ v = null := by cases v <;> simp [isNull]

theorem items?_eq_some {v : Value} {items : List Value} :
    v.items? = some items ↔ v = list items := by
  cases v <;> simp [items?]

theorem string?_eq_some {v : Value} {s : String} : v.string? = some s ↔ v = text s := by
  cases v <;> simp [string?]

end Value

/-! ## Entities -/

/-- A named, ordered sequence of elements. -/
structure Entity where
  name : String
  elements : List Element
deriving Repr

namespace Entity

/-- The entity without elements. -/
def empty (name : String) : Entity := ⟨name, []⟩

/-- The entity with one more element. -/
def add (e : Entity) (x : Element) : Entity := { e with elements := e.elements ++ [x] }

/-- The first element of a name. -/
def find? (e : Entity) (name : String) : Option Element := Named.find? name e.elements

/-- The entity without the first element of a name. -/
def remove (e : Entity) (name : String) : Entity :=
  { e with elements := Named.erase name e.elements }

/-- The entity as a value to embed. -/
def toValue (e : Entity) : Value := .map e.elements

end Entity

end PortableQuery
