import PortableQuery.Schema.Source
import PortableQuery.Value

/-!
# Values in CQL

An integer is a `bigint`, unless a schema declares the field of a user-defined value an `int`. A
user-defined value is converted field by field against its declared type, which the schema is asked
for once for each such value.
-/

namespace PortableQuery.Cql

/-- A value of the store. -/
inductive Native where
  | null
  | boolean (b : Bool)
  | int (i : Int32)
  | bigint (i : Int64)
  | double (d : Double)
  | decimal (d : Decimal)
  | text (s : String)
  | blob (bytes : List UInt8)
  | uuid (u : Uuid)
  | timestamp (t : Timestamp)
  | date (d : Date)
  | list (items : List Native)
  | map (entries : List (Named Native))
  | udt (type : String) (fields : List (Named Native))
deriving Repr

section Convert

variable {m : Type → Type} [Monad m] [MonadExceptOf QueryError m]

/-- The number as a 32-bit integer, if it is one. -/
def narrow? (i : Int64) : Option Int32 :=
  if -2 ^ 31 ≤ i.toInt ∧ i.toInt < 2 ^ 31 then some i.toInt32 else none

mutual

/-- The conversion of a value without a declared type. -/
def toNative (schema : Option (SchemaLookup m)) (scope : Scope) : Value → m Native
  | .null => pure .null
  | .bool b => pure (.boolean b)
  | .int i => pure (.bigint i)
  | .double d => pure (.double d)
  | .decimal d => pure (.decimal d)
  | .text s => pure (.text s)
  | .bytes b => pure (.blob b)
  | .uuid u => pure (.uuid u)
  | .timestamp t => pure (.timestamp t)
  | .date d => pure (.date d)
  | .list items => do
    let ns ← itemsToNative schema scope items
    pure (.list ns)
  | .map entries => do
    let ns ← entriesToNative schema scope entries
    pure (.map ns)
  | .udt type fields =>
    match schema with
    | none => throw (scope.error (.noSchema type))
    | some ask => do
      let declared ← resolveType ask scope type
      let ns ← fieldsToDeclared ask declared scope fields
      pure (.udt type ns)
termination_by structural v => v

/-- The conversion of each item. -/
def itemsToNative (schema : Option (SchemaLookup m)) (scope : Scope) : List Value → m (List Native)
  | [] => pure []
  | v :: vs => do
    let n ← toNative schema scope v
    let ns ← itemsToNative schema scope vs
    pure (n :: ns)
termination_by structural vs => vs

/-- The conversion of each entry; its value belongs to the field of its key. -/
def entriesToNative (schema : Option (SchemaLookup m)) (scope : Scope) :
    List (Named Value) → m (List (Named Native))
  | [] => pure []
  | ⟨key, v⟩ :: es => do
    let n ← toNative schema (scope.nested key) v
    let ns ← entriesToNative schema scope es
    pure (⟨key, n⟩ :: ns)
termination_by structural es => es

/-- The conversion of a value against its declared type. -/
def toDeclared (ask : SchemaLookup m) (declared : FieldType) (scope : Scope) : Value → m Native
  | .null => pure .null
  | .list items =>
    match declared with
    | .list element => do
      let ns ← itemsToDeclared ask element scope items
      pure (.list ns)
    | _ => throw (scope.error (.otherColumn "list" declared))
  | .map entries =>
    match declared with
    | .map value => do
      let ns ← entriesToDeclared ask value scope entries
      pure (.map ns)
    | _ => throw (scope.error (.otherColumn "map" declared))
  | .udt type fields =>
    match declared with
    | .udt name =>
      if type = name then do
        let t ← resolveType ask scope type
        let ns ← fieldsToDeclared ask t scope fields
        pure (.udt type ns)
      else throw (scope.error (.otherType name type))
    | _ => throw (scope.error (.otherColumn "udt" declared))
  | v =>
    match declared, v with
    | .int, .int i =>
      match narrow? i with
      | some n => pure (.int n)
      | none => throw (scope.error (.outOfInt i))
    | .bigint, .int i => pure (.bigint i)
    | .double, .double d => pure (.double d)
    | .decimal, .decimal d => pure (.decimal d)
    | .text, .text s => pure (.text s)
    | .boolean, .bool b => pure (.boolean b)
    | .blob, .bytes b => pure (.blob b)
    | .uuid, .uuid u => pure (.uuid u)
    | .timestamp, .timestamp t => pure (.timestamp t)
    | .date, .date d => pure (.date d)
    | _, _ => throw (scope.error (.otherColumn v.kind declared))
termination_by structural v => v

/-- The conversion of each item against the declared type of items. -/
def itemsToDeclared (ask : SchemaLookup m) (declared : FieldType) (scope : Scope) :
    List Value → m (List Native)
  | [] => pure []
  | v :: vs => do
    let n ← toDeclared ask declared scope v
    let ns ← itemsToDeclared ask declared scope vs
    pure (n :: ns)
termination_by structural vs => vs

/-- The conversion of each entry against the declared type of values. -/
def entriesToDeclared (ask : SchemaLookup m) (declared : FieldType) (scope : Scope) :
    List (Named Value) → m (List (Named Native))
  | [] => pure []
  | ⟨key, v⟩ :: es => do
    let n ← toDeclared ask declared (scope.nested key) v
    let ns ← entriesToDeclared ask declared scope es
    pure (⟨key, n⟩ :: ns)
termination_by structural es => es

/-- The conversion of each field against its type in a user-defined type. -/
def fieldsToDeclared (ask : SchemaLookup m) (declared : UserType) (scope : Scope) :
    List (Named Value) → m (List (Named Native))
  | [] => pure []
  | ⟨field, v⟩ :: fs => do
    let type ← MonadExcept.ofExcept (declaredField declared (scope.nested field))
    let n ← toDeclared ask type (scope.nested field) v
    let ns ← fieldsToDeclared ask declared scope fs
    pure (⟨field, n⟩ :: ns)
termination_by structural fs => fs

end

end Convert

mutual

/-- The portable value of a value of the store. -/
def ofNative : Native → Value
  | .null => .null
  | .boolean b => .bool b
  | .int i => .int i.toInt64
  | .bigint i => .int i
  | .double d => .double d
  | .decimal d => .decimal d
  | .text s => .text s
  | .blob b => .bytes b
  | .uuid u => .uuid u
  | .timestamp t => .timestamp t
  | .date d => .date d
  | .list items => .list (itemsOfNative items)
  | .map entries => .map (entriesOfNative entries)
  | .udt type fields => .udt type (entriesOfNative fields)
termination_by structural n => n

/-- The portable value of each item. -/
def itemsOfNative : List Native → List Value
  | [] => []
  | n :: ns => ofNative n :: itemsOfNative ns
termination_by structural ns => ns

/-- The portable value of each entry. -/
def entriesOfNative : List (Named Native) → List (Named Value)
  | [] => []
  | ⟨key, n⟩ :: es => ⟨key, ofNative n⟩ :: entriesOfNative es
termination_by structural es => es

end

end PortableQuery.Cql
