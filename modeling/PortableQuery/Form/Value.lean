import PortableQuery.Calendar.Reading
import PortableQuery.Form.Record
import PortableQuery.Number.DecimalText
import PortableQuery.Number.Shortest
import PortableQuery.Value

/-!
# The JSON form of values and entities

A value is a variant named for its kind. Reading is more liberal than writing: a decimal may be a
number, a double an integer, and moments and days are read in their relaxed grammar. A double that
is not finite is written as null, which no double is read from.
-/

namespace PortableQuery

open JsonForm

/-! ## Writing -/

/-- A double as a JSON number; null if it is none. -/
def Double.toJson : Double → Json
  | .finite x => .double x
  | _ => .null

namespace Value

mutual

/-- The JSON form of a value. -/
def toJson : Value → Json
  | null => .string "null"
  | bool b => .single "bool" (.bool b)
  | int i => .single "int" (.int i.toInt)
  | double d => .single "double" d.toJson
  | decimal d => .single "decimal" (.string d.text)
  | text s => .single "text" (.string s)
  | bytes b => .single "bytes" (ofBytes b)
  | uuid u => .single "uuid" (.string u.text)
  | timestamp t => .single "timestamp" (.string (t.text "Z"))
  | date d => .single "date" (.string d.text)
  | list items => .single "list" (.array (itemsToJson items))
  | map entries => .single "map" (.array (elementsToJson entries))
  | udt type fields =>
    .single "udt" (.object [⟨"typeName", .string type⟩, ⟨"fields", .array (elementsToJson fields)⟩])
termination_by structural v => v

/-- The JSON form of each item. -/
def itemsToJson : List Value → List Json
  | [] => []
  | v :: vs => toJson v :: itemsToJson vs
termination_by structural vs => vs

/-- The JSON form of each element. -/
def elementsToJson : List (Named Value) → List Json
  | [] => []
  | ⟨name, v⟩ :: es =>
    .object [⟨"name", .string name⟩, ⟨"value", toJson v⟩] :: elementsToJson es
termination_by structural es => es

end

/-! ## Reading -/

/-- A value of a scalar kind. -/
def scalarOfRaw? (kind : String) (data : RawJson) : Option Value :=
  match kind, data with
  | "null", .null => some .null
  | "bool", .bool b => some (.bool b)
  | "int", .int i => if -2 ^ 63 ≤ i ∧ i < 2 ^ 63 then some (.int (Int64.ofInt i)) else none
  | "double", .double d => some (.double (.finite d))
  | "double", .int i => some (.double (.ofInt i))
  | "decimal", .string s => (DecimalText.read s).toOption.map .decimal
  | "decimal", .int i => (Decimal.ofInt? i).map .decimal
  | "decimal", .double d => (DecimalText.read (d.text plainLayout)).toOption.map .decimal
  | "text", .string s => some (.text s)
  | "uuid", .string s => (Uuid.read? s).map .uuid
  | "timestamp", .string s => (CalendarText.relaxedTimestamp s).toOption.map .timestamp
  | "date", .string s => (CalendarText.relaxedDate s).toOption.map .date
  | _, _ => none

mutual

/-- The value of a form. -/
def ofRaw? : RawJson → Option Value
  | .string s => if s = "null" then some .null else none
  | .object [⟨kind, data⟩] => dataOfRaw? kind data
  | _ => none
termination_by structural j => j

/-- The value of a kind with data. -/
def dataOfRaw? (kind : String) : RawJson → Option Value
  | .array items =>
    if kind = "list" then (itemsOfRaw? items).map .list
    else if kind = "map" then (elementsOfRaw? items).map .map
    else if kind = "bytes" then (bytes? (.array items)).map .bytes
    else if kind = "udt" then
      match items with
      | [.string type, .array fields] => (elementsOfRaw? fields).map (.udt type)
      | _ => none
    else none
  | .object members =>
    if kind = "udt" then
      match one? "typeName" members, fieldsOfRaw? members with
      | some (.string type), [some fields] => some (.udt type fields)
      | _, _ => none
    else none
  | data => scalarOfRaw? kind data
termination_by structural j => j

/-- The values of an array. -/
def itemsOfRaw? : List RawJson → Option (List Value)
  | [] => some []
  | j :: js => do
    let v ← ofRaw? j
    let vs ← itemsOfRaw? js
    pure (v :: vs)
termination_by structural js => js

/-- An element. -/
def elementOfRaw? : RawJson → Option (Named Value)
  | .array [.string name, value] => (ofRaw? value).map (⟨name, ·⟩)
  | .object members =>
    match one? "name" members, valuesOfRaw? members with
    | some (.string name), [some v] => some ⟨name, v⟩
    | _, _ => none
  | _ => none
termination_by structural j => j

/-- The elements of an array. -/
def elementsOfRaw? : List RawJson → Option (List (Named Value))
  | [] => some []
  | j :: js => do
    let e ← elementOfRaw? j
    let es ← elementsOfRaw? js
    pure (e :: es)
termination_by structural js => js

/-- Every member that is named `value`, read as a value. -/
def valuesOfRaw? : List (Named RawJson) → List (Option Value)
  | [] => []
  | ⟨name, j⟩ :: ms =>
    if name = "value" then ofRaw? j :: valuesOfRaw? ms else valuesOfRaw? ms
termination_by structural ms => ms

/-- Every member that is named `fields`, read as elements. -/
def fieldsOfRaw? : List (Named RawJson) → List (Option (List (Named Value)))
  | [] => []
  | ⟨name, .array items⟩ :: ms =>
    if name = "fields" then elementsOfRaw? items :: fieldsOfRaw? ms else fieldsOfRaw? ms
  | ⟨name, _⟩ :: ms => if name = "fields" then none :: fieldsOfRaw? ms else fieldsOfRaw? ms
termination_by structural ms => ms

end

/-- The value of a JSON form. -/
def ofJson? (j : Json) : Option Value := ofRaw? j.raw

end Value

/-! ## Elements and entities -/

namespace Element

/-- The JSON form of an element. -/
def toJson (e : Element) : Json := .object [⟨"name", .string e.name⟩, ⟨"value", e.value.toJson⟩]

/-- The element of a form. -/
def ofRaw? (j : RawJson) : Option Element := Value.elementOfRaw? j

/-- The element of a JSON form. -/
def ofJson? (j : Json) : Option Element := ofRaw? j.raw

end Element

namespace Entity

/-- The JSON form of an entity. -/
def toJson (e : Entity) : Json :=
  .object [⟨"name", .string e.name⟩, ⟨"elements", .array (Value.elementsToJson e.elements)⟩]

/-- The entity of a form. -/
def ofRaw? (j : RawJson) : Option Entity := do
  match ← record? ["name", "elements"] 2 j with
  | [some (.string name), some (.array elements)] =>
    pure ⟨name, ← Value.elementsOfRaw? elements⟩
  | _ => none

/-- The entity of a JSON form. -/
def ofJson? (j : Json) : Option Entity := ofRaw? j.raw

end Entity

end PortableQuery
