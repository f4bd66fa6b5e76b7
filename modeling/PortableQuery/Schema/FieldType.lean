import PortableQuery.Named
import PortableQuery.Text.Printing

/-!
# Declared types

The types that a store's schema declares for columns and for the fields of its user-defined types.
-/

namespace PortableQuery

/-- The type of a column or field. -/
inductive FieldType where
  | text
  | int
  | bigint
  | double
  | decimal
  | boolean
  | blob
  | uuid
  | timestamp
  | date
  | list (element : FieldType)
  | map (value : FieldType)
  | udt (name : String)
deriving DecidableEq, Repr

/-- The type as messages give it. -/
def FieldType.describe : FieldType → String
  | text => "Text"
  | int => "Int"
  | bigint => "BigInt"
  | double => "Double"
  | decimal => "Decimal"
  | boolean => "Boolean"
  | blob => "Blob"
  | uuid => "Uuid"
  | timestamp => "Timestamp"
  | date => "Date"
  | list element => "List \x7b element: " ++ element.describe ++ " \x7d"
  | map value => "Map \x7b value: " ++ value.describe ++ " \x7d"
  | udt name => "Udt \x7b name: " ++ Text.literal name ++ " \x7d"

/-- A user-defined type with its declared fields in order. -/
structure UserType where
  name : String
  fields : List (Named FieldType)
deriving DecidableEq, Repr

/-- The declared type of a field. -/
def UserType.fieldType? (t : UserType) (field : String) : Option FieldType :=
  Named.get? field t.fields

end PortableQuery
