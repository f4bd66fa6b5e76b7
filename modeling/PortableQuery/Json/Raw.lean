import PortableQuery.Json.Basic

/-!
# JSON as a text writes it

Between a text and its value stands the *raw* JSON of the text. An object has its members as they
are written, repeated or not, and a part that the grammar allows but no value represents is there,
too, as `beyond`: what is passed over need not be representable.
-/

namespace PortableQuery

/-- JSON as a text writes it. -/
inductive RawJson where
  | null
  | bool (b : Bool)
  | int (i : Int)
  | double (d : FiniteDouble)
  | string (s : String)
  | array (items : List RawJson)
  | object (members : List (Named RawJson))
  | beyond
deriving Repr

namespace RawJson

/-- The characters of a string. -/
def string? : RawJson → Option String
  | string s => some s
  | _ => none

/-! ## Representable parts -/

mutual

/-- Every part represents a value. -/
def isRepresentable : RawJson → Bool
  | array items => areRepresentable items
  | object members => membersAreRepresentable members
  | beyond => false
  | _ => true
termination_by structural j => j

/-- Every part of every item represents a value. -/
def areRepresentable : List RawJson → Bool
  | [] => true
  | j :: js => isRepresentable j && areRepresentable js
termination_by structural js => js

/-- Every part of every member represents a value. -/
def membersAreRepresentable : List (Named RawJson) → Bool
  | [] => true
  | ⟨_, j⟩ :: ms => isRepresentable j && membersAreRepresentable ms
termination_by structural ms => ms

end

end RawJson

/-! ## Values as raw JSON -/

namespace Json

mutual

/-- The value as raw JSON. -/
def raw : Json → RawJson
  | null => .null
  | bool b => .bool b
  | int i => .int i
  | double d => .double d
  | string s => .string s
  | array items => .array (rawItems items)
  | object members => .object (rawMembers members)
termination_by structural j => j

/-- Each item as raw JSON. -/
def rawItems : List Json → List RawJson
  | [] => []
  | j :: js => raw j :: rawItems js
termination_by structural js => js

/-- The value of each member as raw JSON. -/
def rawMembers : List (Named Json) → List (Named RawJson)
  | [] => []
  | ⟨name, j⟩ :: ms => ⟨name, raw j⟩ :: rawMembers ms
termination_by structural ms => ms

end

mutual

/-- A value is representable. -/
@[simp] theorem isRepresentable_raw : ∀ j : Json, j.raw.isRepresentable = true
  | null | bool _ | int _ | double _ | string _ => rfl
  | array items => areRepresentable_rawItems items
  | object members => membersAreRepresentable_rawMembers members
termination_by structural j => j

/-- The items of a value are representable. -/
@[simp] theorem areRepresentable_rawItems :
    ∀ items : List Json, RawJson.areRepresentable (rawItems items) = true
  | [] => rfl
  | j :: js => by
    simp [rawItems, RawJson.areRepresentable, isRepresentable_raw j, areRepresentable_rawItems js]
termination_by structural items => items

/-- The members of a value are representable. -/
@[simp] theorem membersAreRepresentable_rawMembers :
    ∀ members : List (Named Json), RawJson.membersAreRepresentable (rawMembers members) = true
  | [] => rfl
  | ⟨_, j⟩ :: ms => by
    simp [rawMembers, RawJson.membersAreRepresentable, isRepresentable_raw j,
      membersAreRepresentable_rawMembers ms]
termination_by structural members => members

end

end Json

/-! ## The value of raw JSON -/

namespace RawJson

/-- The first key of an object that stands for a document: the document is the text behind it. -/
def embeddedKey : String := "$serde_json::private::RawValue"

/-- The object stands for the document in a text. -/
def isEmbedding (members : List (Named RawJson)) : Bool :=
  members.head?.any (·.name == embeddedKey)

/-- The text that such an object holds as its only member. -/
def embeddedText? : List (Named RawJson) → Option String
  | [⟨_, string s⟩] => some s
  | _ => none

mutual

/-- The value, `read?` being used on embedded texts. -/
def toJson? (read? : String → Option Json) : RawJson → Option Json
  | null => some .null
  | bool b => some (.bool b)
  | int i => some (.int i)
  | double d => some (.double d)
  | string s => some (.string s)
  | array items => (itemsToJson? read? items).map .array
  | object members =>
    if isEmbedding members then (embeddedText? members).bind read?
    else (membersToJson? read? members).map Json.objectOf
  | beyond => none
termination_by structural j => j

/-- The value of each item. -/
def itemsToJson? (read? : String → Option Json) : List RawJson → Option (List Json)
  | [] => some []
  | j :: js => do
    let j ← toJson? read? j
    let js ← itemsToJson? read? js
    pure (j :: js)
termination_by structural js => js

/-- The value of each member, under its name. -/
def membersToJson? (read? : String → Option Json) :
    List (Named RawJson) → Option (List (Named Json))
  | [] => some []
  | ⟨name, j⟩ :: ms => do
    let j ← toJson? read? j
    let ms ← membersToJson? read? ms
    pure (⟨name, j⟩ :: ms)
termination_by structural ms => ms

end

end RawJson

end PortableQuery
