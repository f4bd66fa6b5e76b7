import PortableQuery.Error
import PortableQuery.Json.Plain

/-!
# Values as document fields

Relaxed extended JSON. A value that JSON has no literal for stands in an object with one member, its
*tag*: `$numberDecimal`, `$numberDouble`, `$binary` or `$date`. A key of a map therefore never
starts with `$`.
-/

namespace PortableQuery.Document

/-- The name starts with `$`. -/
def isDollar (name : String) : Bool := name.toList.head? == some '$'

/-- The subtype of plain bytes. -/
def bytesSubtype : String := "00"

/-- The subtype of an identifier. -/
def uuidSubtype : String := "04"

/-! ## Writing -/

/-- Bytes under their tag. -/
def binary (bytes : List UInt8) (subtype : String) : Json :=
  .single "$binary" (.object
    [⟨"base64", .string (Base64.encode Base64.standard bytes)⟩, ⟨"subType", .string subtype⟩])

/-- A double, under a tag if it is not finite. -/
def encodeDouble : Double → Json
  | .finite d => .double d
  | .nan => .single "$numberDouble" (.string "NaN")
  | .infinite false => .single "$numberDouble" (.string "Infinity")
  | .infinite true => .single "$numberDouble" (.string "-Infinity")

mutual

/-- The document form of a value. -/
def encode (scope : Scope) : Value → Except QueryError Json
  | .null => .ok .null
  | .bool b => .ok (.bool b)
  | .int i => .ok (.int i.toInt)
  | .double d => .ok (encodeDouble d)
  | .decimal d => .ok (.single "$numberDecimal" (.string d.text))
  | .text s => .ok (.string s)
  | .bytes b => .ok (binary b bytesSubtype)
  | .uuid u => .ok (binary u.bytes uuidSubtype)
  | .timestamp t => .ok (.single "$date" (.string (t.text "Z")))
  | .date d => .ok (.single "$date" (.string d.text))
  | .list items => do
    let js ← encodeItems scope items
    pure (.array js)
  | .map entries => do
    let ms ← encodeEntries scope [] entries
    pure (.object ms)
  | .udt type _ => .error (scope.error (.documentUdt type))
termination_by structural v => v

/-- The document form of each item. -/
def encodeItems (scope : Scope) : List Value → Except QueryError (List Json)
  | [] => .ok []
  | v :: vs => do
    let j ← encode scope v
    let js ← encodeItems scope vs
    pure (j :: js)
termination_by structural vs => vs

/-- The document form of the entries behind the keys `seen`; a value belongs to the field of its
key, and a bad key to the field of the map. -/
def encodeEntries (scope : Scope) (seen : List String) :
    List (Named Value) → Except QueryError (List (Named Json))
  | [] => .ok []
  | ⟨key, v⟩ :: es => do
    if isDollar key then throw (scope.error (.dollarKey key))
    let j ← encode (scope.nested key) v
    if key ∈ seen then throw (scope.error (.duplicateDocumentKey key))
    let ms ← encodeEntries scope (key :: seen) es
    pure (⟨key, j⟩ :: ms)
termination_by structural es => es

end

/-! ## Reading -/

/-- A result, its fault belonging to the field that is read. -/
def orFault {ε α : Type} (scope : Scope) (fault : ε → ConversionFault) :
    Except ε α → Except QueryError α
  | .ok a => .ok a
  | .error e => .error (scope.error (fault e))

/-- The text under a tag. -/
def tagText (scope : Scope) (tag : String) : Json → Except QueryError String
  | .string s => .ok s
  | _ => .error (scope.error (.tagNeedsText tag))

/-- A double by its text: one of the three names that writing uses, or a number. -/
def decodeDouble (scope : Scope) (s : String) : Except QueryError Value :=
  match s with
  | "NaN" => .ok (.double .nan)
  | "Infinity" => .ok (.double (.infinite false))
  | "-Infinity" => .ok (.double (.infinite true))
  | s => (orFault scope .badDouble (DoubleText.read s)).map .double

/-- A day if the text has ten bytes, else a moment. -/
def decodeDate (scope : Scope) (s : String) : Except QueryError Value :=
  if s.utf8ByteSize = 10 then (orFault scope .badDate (CalendarText.date s)).map .date
  else (orFault scope .badTimestamp (CalendarText.timestamp s)).map .timestamp

/-- Bytes or an identifier, by their subtype. -/
def decodeBinary (scope : Scope) (body : Json) : Except QueryError Value :=
  match (body.member? "base64").bind Json.string?, (body.member? "subType").bind Json.string? with
  | some encoded, some subtype => do
    let bytes ← orFault scope .badBase64 (Base64.decode Base64.standard encoded)
    if subtype = uuidSubtype then
      match Uuid.ofBytes? bytes with
      | some u => pure (.uuid u)
      | none => throw (scope.error (.badUuid bytes.length))
    else if subtype = bytesSubtype then pure (.bytes bytes)
    else throw (scope.error (.unknownSubtype subtype))
  | _, _ => .error (scope.error .binaryShape)

/-- The value under a tag; none if the name is no tag. -/
def decodeTagged (scope : Scope) (tag : String) (body : Json) :
    Option (Except QueryError Value) :=
  match tag with
  | "$numberDecimal" => some do
    let s ← tagText scope tag body
    (orFault scope .badDecimal (DecimalText.read s)).map .decimal
  | "$numberDouble" => some do
    let s ← tagText scope tag body
    decodeDouble scope s
  | "$date" => some do
    let s ← tagText scope tag body
    decodeDate scope s
  | "$binary" => some (decodeBinary scope body)
  | _ => none

mutual

/-- The value of a document form. -/
def decode (scope : Scope) : Json → Except QueryError Value
  | .null => .ok .null
  | .bool b => .ok (.bool b)
  | .int i => .ok (Value.ofInteger i)
  | .double d => .ok (.double (.finite d))
  | .string s => .ok (.text s)
  | .array items => do
    let vs ← decodeItems scope items
    pure (.list vs)
  | .object [⟨tag, body⟩] =>
    match decodeTagged scope tag body with
    | some r => r
    | none =>
      if isDollar tag then .error (scope.error (.unknownTag tag))
      else do
        let v ← decode (scope.nested tag) body
        pure (.map [⟨tag, v⟩])
  | .object members => do
    let es ← decodeMembers scope members
    pure (.map es)
termination_by structural j => j

/-- The value of each item. -/
def decodeItems (scope : Scope) : List Json → Except QueryError (List Value)
  | [] => .ok []
  | j :: js => do
    let v ← decode scope j
    let vs ← decodeItems scope js
    pure (v :: vs)
termination_by structural js => js

/-- The value of each member, which belongs to the field of its name. -/
def decodeMembers (scope : Scope) : List (Named Json) → Except QueryError (List (Named Value))
  | [] => .ok []
  | ⟨key, j⟩ :: ms => do
    if isDollar key then throw (scope.error (.unknownTag key))
    let v ← decode (scope.nested key) j
    let es ← decodeMembers scope ms
    pure (⟨key, v⟩ :: es)
termination_by structural ms => ms

end

end PortableQuery.Document
