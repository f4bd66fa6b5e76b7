import PortableQuery.Json.Raw

/-!
# Records and variants in JSON

A record is an object with a member for each field, or an array of the fields in their order.
Members of other names are passed over, whatever they hold, and a repeated field is a fault. A
variant is the name of a case, or an object whose one member is named for the case and holds its
data.
-/

namespace PortableQuery.JsonForm

/-- The value of the one member named `name`; none if the name is missing or repeated. -/
def one? (name : String) (members : List (Named RawJson)) : Option RawJson :=
  match members.filter (·.name == name) with
  | [m] => some m.value
  | _ => none

/-- A field of an object that may be missing but not be repeated: the outer result is the fault. -/
def field? (name : String) (members : List (Named RawJson)) : Option (Option RawJson) :=
  match members.filter (·.name == name) with
  | [] => some none
  | [m] => some (some m.value)
  | _ => none

/-- The fields `names` of a record, in order. An array must have the first `required` of them, an
object may lack any. -/
def record? (names : List String) (required : Nat) : RawJson → Option (List (Option RawJson))
  | .object members => names.mapM fun name => field? name members
  | .array items =>
    if required ≤ items.length ∧ items.length ≤ names.length then
      some (items.map some ++ List.replicate (names.length - items.length) none)
    else none
  | _ => none

/-- The case of a variant, and its data if it has any. -/
def variant? : RawJson → Option (String × Option RawJson)
  | .string name => some (name, none)
  | .object [⟨name, data⟩] => some (name, some data)
  | _ => none

/-- The data of a case without data: nothing, or null. -/
def isUnit : Option RawJson → Bool
  | none => true
  | some .null => true
  | some _ => false

/-- A natural number below a bound. -/
def natBelow? (bound : Nat) : RawJson → Option Nat
  | .int i => if 0 ≤ i ∧ i < bound then some i.toNat else none
  | _ => none

/-- A truth value. -/
def bool? : RawJson → Option Bool
  | .bool b => some b
  | _ => none

/-- An array, item by item. -/
def items? {α : Type} (f : RawJson → Option α) : RawJson → Option (List α)
  | .array items => items.mapM f
  | _ => none

/-- A byte sequence as an array of numbers. -/
def bytes? : RawJson → Option (List UInt8) :=
  items? fun j => (natBelow? 256 j).map UInt8.ofNat

/-- The array of a byte sequence. -/
def ofBytes (bytes : List UInt8) : Json := .array (bytes.map fun b => .int b.toNat)

end PortableQuery.JsonForm
