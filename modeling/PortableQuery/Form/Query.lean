import PortableQuery.Form.Condition
import PortableQuery.Query

/-!
# The JSON form of queries

All fields of a query but its entity may be missing, except where it is written as an array: there
a condition and a cursor are there or null, and with them everything before the cursor.
-/

namespace PortableQuery

open JsonForm

namespace SortKey

/-- The name of a direction in the JSON form. -/
def directionName : Direction → String
  | .ascending => "asc"
  | .descending => "desc"

/-- The direction of a form. -/
def directionOfRaw? (j : RawJson) : Option Direction :=
  match variant? j with
  | some ("asc", data) => if isUnit data then some .ascending else none
  | some ("desc", data) => if isUnit data then some .descending else none
  | _ => none

/-- The JSON form of an entry of an order. -/
def toJson (s : SortKey) : Json :=
  .object [⟨"field", .string s.field⟩, ⟨"direction", .string (directionName s.direction)⟩]

/-- The entry of a form. -/
def ofRaw? (j : RawJson) : Option SortKey := do
  match ← record? ["field", "direction"] 2 j with
  | [some (.string field), some direction] => pure ⟨field, ← directionOfRaw? direction⟩
  | _ => none

/-- The entry of a JSON form. -/
def ofJson? (j : Json) : Option SortKey := ofRaw? j.raw

end SortKey

namespace CursorToken

/-- The JSON form of a token, its bytes. -/
def toJson (t : CursorToken) : Json := ofBytes t.bytes

/-- The token of a form. -/
def ofRaw? (j : RawJson) : Option CursorToken := (bytes? j).map (⟨·⟩)

/-- The token of a JSON form. -/
def ofJson? (j : Json) : Option CursorToken := ofRaw? j.raw

end CursorToken

/-- A field that has a default. -/
def fieldOr {α : Type} (default : α) (f : RawJson → Option α) : Option RawJson → Option α
  | none => some default
  | some j => f j

/-- A field that may be missing or null. -/
def optionalField {α : Type} (f : RawJson → Option α) : Option RawJson → Option (Option α)
  | none => some none
  | some .null => some none
  | some j => (f j).map some

/-- An unsigned integer of 64 bits. -/
def word? (j : RawJson) : Option UInt64 := (natBelow? (2 ^ 64) j).map UInt64.ofNat

namespace Query

/-- The JSON form of a query; a condition and a cursor are written only if there are any. -/
def toJson (q : Query) : Json :=
  .object
    ([⟨"entity", .string q.entity⟩] ++
      (q.condition.map fun c => ⟨"condition", c.toJson⟩).toList ++
      [⟨"projection", .array (q.projection.map .string)⟩,
        ⟨"sorts", .array (q.sorts.map SortKey.toJson)⟩,
        ⟨"limit", .int q.limit.toNat⟩,
        ⟨"skip", .int q.skip.toNat⟩] ++
      (q.cursor.map fun t => ⟨"cursor", t.toJson⟩).toList)

/-- The query of a form. -/
def ofRaw? (p : Placement) (j : RawJson) : Option Query := do
  let names := ["entity", "condition", "projection", "sorts", "limit", "skip", "cursor"]
  match ← record? names 7 j with
  | [some (.string entity), condition, projection, sorts, limit, skip, cursor] =>
    pure
      { entity
        condition := ← optionalField (Condition.ofRaw? p) condition
        projection := ← fieldOr [] (items? RawJson.string?) projection
        sorts := ← fieldOr [] (items? SortKey.ofRaw?) sorts
        limit := ← fieldOr 0 word? limit
        skip := ← fieldOr 0 word? skip
        cursor := ← optionalField CursorToken.ofRaw? cursor }
  | _ => none

/-- The query of a JSON form. -/
def ofJson? (p : Placement) (j : Json) : Option Query := ofRaw? p j.raw

end Query

namespace CompilerConfig

/-- The JSON form of the settings. -/
def toJson (c : CompilerConfig) : Json :=
  .object [⟨"idField", .string c.idField⟩, ⟨"pointLookup", .bool c.pointLookup⟩,
    ⟨"maxResultWindow", .int c.maxResultWindow.toNat⟩]

/-- The settings of a form; what is missing has its default. -/
def ofRaw? (j : RawJson) : Option CompilerConfig := do
  let standard : CompilerConfig := {}
  match ← record? ["idField", "pointLookup", "maxResultWindow"] 0 j with
  | [idField, pointLookup, window] =>
    pure
      { idField := ← fieldOr standard.idField RawJson.string? idField
        pointLookup := ← fieldOr standard.pointLookup bool? pointLookup
        maxResultWindow := ← fieldOr standard.maxResultWindow word? window }
  | _ => none

/-- The settings of a JSON form. -/
def ofJson? (j : Json) : Option CompilerConfig := ofRaw? j.raw

end CompilerConfig

end PortableQuery
