import PortableQuery.Form.Record
import PortableQuery.Schema.FieldType

/-!
# The JSON form of declared types

A type is an object with a member `type` that names it, or an array with the name first. Inside
another type the name may also be its place in the list of names. All of a type has to represent a
value, also the members that are not looked at.
-/

namespace PortableQuery

open JsonForm

namespace FieldType

/-- The names of types in the JSON form, in order of their declaration. -/
def formNames : List String :=
  ["text", "int", "bigint", "double", "decimal", "boolean", "blob", "uuid", "timestamp", "date",
    "list", "map", "udt"]

/-- The JSON form of a type. -/
def toJson : FieldType → Json
  | text => .single "type" (.string "text")
  | int => .single "type" (.string "int")
  | bigint => .single "type" (.string "bigint")
  | double => .single "type" (.string "double")
  | decimal => .single "type" (.string "decimal")
  | boolean => .single "type" (.string "boolean")
  | blob => .single "type" (.string "blob")
  | uuid => .single "type" (.string "uuid")
  | timestamp => .single "type" (.string "timestamp")
  | date => .single "type" (.string "date")
  | list element => .object [⟨"type", .string "list"⟩, ⟨"element", element.toJson⟩]
  | map value => .object [⟨"type", .string "map"⟩, ⟨"value", value.toJson⟩]
  | udt name => .object [⟨"type", .string "udt"⟩, ⟨"name", .string name⟩]

/-- The type of a name that stands for itself. -/
def simple? : String → Option FieldType
  | "text" => some text
  | "int" => some int
  | "bigint" => some bigint
  | "double" => some double
  | "decimal" => some decimal
  | "boolean" => some boolean
  | "blob" => some blob
  | "uuid" => some uuid
  | "timestamp" => some timestamp
  | "date" => some date
  | _ => none

/-- The name of a type: a text, inside another type also a place in the list of names. -/
def formName? (inside : Bool) : RawJson → Option String
  | .string s => some s
  | .int i => if inside ∧ 0 ≤ i then formNames[i.toNat]? else none
  | _ => none

mutual

/-- The type of a form, which stands inside another one or not. -/
def read? (inside : Bool) : RawJson → Option FieldType
  | .object members =>
    match (one? "type" members).bind (formName? inside) with
    | some "list" =>
      match membersNamed "element" members with
      | [some t] => some (.list t)
      | _ => none
    | some "map" =>
      match membersNamed "value" members with
      | [some t] => some (.map t)
      | _ => none
    | some "udt" =>
      match one? "name" members with
      | some (.string name) => some (.udt name)
      | _ => none
    | some name => simple? name
    | none => none
  | .array [tag] => (formName? inside tag).bind simple?
  | .array [tag, data] =>
    match formName? inside tag with
    | some "list" => (read? true data).map .list
    | some "map" => (read? true data).map .map
    | some "udt" => data.string?.map .udt
    | _ => none
  | _ => none
termination_by structural j => j

/-- Every member of a name, read as a type inside another one. -/
def membersNamed (name : String) : List (Named RawJson) → List (Option FieldType)
  | [] => []
  | ⟨n, j⟩ :: ms => if n = name then read? true j :: membersNamed name ms else membersNamed name ms
termination_by structural ms => ms

end

/-- The type of a form. -/
def ofRaw? (j : RawJson) : Option FieldType :=
  if j.isRepresentable then read? false j else none

/-- The type of a JSON form. -/
def ofJson? (j : Json) : Option FieldType := ofRaw? j.raw

end FieldType

namespace UserType

/-- The JSON form of a user-defined type; its fields are pairs of a name and a type. -/
def toJson (t : UserType) : Json :=
  .object [⟨"name", .string t.name⟩,
    ⟨"fields", .array (t.fields.map fun f => .array [.string f.name, f.value.toJson])⟩]

/-- A declared field. -/
def fieldOfRaw? : RawJson → Option (Named FieldType)
  | .array [.string name, type] => (FieldType.ofRaw? type).map (⟨name, ·⟩)
  | _ => none

/-- The user-defined type of a form. -/
def ofRaw? (j : RawJson) : Option UserType := do
  match ← record? ["name", "fields"] 2 j with
  | [some (.string name), some fields] => pure ⟨name, ← items? fieldOfRaw? fields⟩
  | _ => none

/-- The user-defined type of a JSON form. -/
def ofJson? (j : Json) : Option UserType := ofRaw? j.raw

end UserType

end PortableQuery
