import PortableQuery.Base64
import PortableQuery.Calendar.Reading
import PortableQuery.Condition
import PortableQuery.Number.DecimalText
import PortableQuery.Number.DoubleText
import PortableQuery.Number.Shortest
import PortableQuery.Schema.FieldType

/-!
# Errors

Every way in which a query can fail, by cause. The wording of each cause is given once, here.
-/

namespace PortableQuery

/-- How the dialects word that a comparison with null is no condition. -/
inductive NullWording where
  | compareUpper
  | compareLower
  | matchLower
deriving DecidableEq, Repr

/-- The wording itself. -/
def NullWording.text : NullWording → String
  | .compareUpper => "cannot compare with NULL"
  | .compareLower => "cannot compare with null"
  | .matchLower => "cannot match null"

/-- What is wrong with the shape of a query. -/
inductive InvalidQuery where
  | emptyEntity
  | emptyCursor
  | malformedCursor (fault : Base64.Error)
  | emptyField (operator : Operator)
  | betweenShape (field : String)
  | oneOfShape (field : String)
  | oneOfEmpty (field : String)
  | oneOfNested (field : String)
  | likeShape (field : String)
  | emptyJoin (connective : Connective)
  | nullKey (operator : Operator) (field : String)
  | nullOperand (wording : NullWording) (operator : Operator) (field : String)
  | malformed (operator : Operator) (field : String)
  | keyShape
  | keyRange
  | dollarField (field : String)
  | unsortable (field entity : String)
  | window (skip size window : UInt64)
deriving DecidableEq, Repr

/-- The wording of a bad shape. -/
def InvalidQuery.message : InvalidQuery → String
  | .emptyEntity => "entity name cannot be empty"
  | .emptyCursor => "cursor token is empty"
  | .malformedCursor e => "malformed cursor token: " ++ e.message
  | .emptyField o => o.name ++ " predicate has an empty field name"
  | .betweenShape f => "BETWEEN on '" ++ f ++ "' requires a two-element list"
  | .oneOfShape f => "IN on '" ++ f ++ "' requires a list value"
  | .oneOfEmpty f => "IN on '" ++ f ++ "' requires at least one value"
  | .oneOfNested f => "IN on '" ++ f ++ "' accepts scalar values only"
  | .likeShape f => "LIKE on '" ++ f ++ "' requires a text pattern"
  | .emptyJoin c => c.name ++ " requires at least one condition"
  | .nullKey o f => o.name ++ " on key field '" ++ f ++ "' cannot match null"
  | .nullOperand w o f => o.name ++ " on '" ++ f ++ "' " ++ w.text
  | .malformed o f => "malformed " ++ o.name ++ " predicate on '" ++ f ++ "'"
  | .keyShape => "key lookup requires a predicate"
  | .keyRange => "BETWEEN cannot be a key lookup"
  | .dollarField f => "document field '" ++ f ++ "' may not start with '$'"
  | .unsortable f e =>
    "cannot sort by '" ++ f ++ "': not a clustering column of '" ++ e ++ "'"
  | .window skip size most =>
    "skip " ++ toString skip ++ " + size " ++ toString size ++ " exceeds the result window of " ++
      toString most

/-- Why a value cannot be converted. -/
inductive ConversionFault where
  | nonFinite (d : Double)
  | duplicateMapKey (key : String)
  | plainUdt (type : String)
  | dollarKey (key : String)
  | duplicateDocumentKey (key : String)
  | documentUdt (type : String)
  | unknownTag (tag : String)
  | tagNeedsText (tag : String)
  | badDecimal (fault : DecimalText.Error)
  | badDouble (fault : DoubleText.Error)
  | badDate (fault : CalendarText.Error)
  | badTimestamp (fault : CalendarText.Error)
  | binaryShape
  | badBase64 (fault : Base64.Error)
  | badUuid (length : Nat)
  | unknownSubtype (subtype : String)
  | sqlUdt (type : String)
  | noSchema (type : String)
  | undeclaredType (type : String)
  | undeclaredField (field type : String)
  | outOfInt (i : Int64)
  | otherType (expected found : String)
  | otherColumn (kind : String) (column : FieldType)
deriving DecidableEq, Repr

/-- The name of a value that is not finite. -/
def Double.specialName : Double → String
  | .nan => "NaN"
  | .infinite false => "inf"
  | .infinite true => "-inf"
  | .finite x => x.text plainLayout

/-- The wording of a conversion fault. -/
def ConversionFault.message : ConversionFault → String
  | .nonFinite d => "non-finite double " ++ d.specialName ++ " has no JSON form"
  | .duplicateMapKey k => "duplicate map key '" ++ k ++ "'"
  | .plainUdt t => "user-defined value of type '" ++ t ++ "' has no plain JSON form"
  | .dollarKey k => "document key '" ++ k ++ "' may not start with '$'"
  | .duplicateDocumentKey k => "duplicate document key '" ++ k ++ "'"
  | .documentUdt t => "user-defined value of type '" ++ t ++ "' cannot be stored in a document"
  | .unknownTag t => "unknown extended JSON tag '" ++ t ++ "'"
  | .tagNeedsText t => t ++ " expects a string"
  | .badDecimal e => "invalid decimal: " ++ e.message
  | .badDouble e => "invalid double: " ++ e.message
  | .badDate e => "invalid date: " ++ e.message
  | .badTimestamp e => "invalid timestamp: " ++ e.message
  | .binaryShape => "$binary requires base64 and subType"
  | .badBase64 e => "invalid base64: " ++ e.message
  | .badUuid n => "invalid uuid: invalid length: expected 16 bytes, found " ++ toString n
  | .unknownSubtype s => "unsupported binary subType '" ++ s ++ "'"
  | .sqlUdt t => "user-defined value of type '" ++ t ++ "' cannot be bound in SQL"
  | .noSchema t => "no schema metadata available for user type '" ++ t ++ "'"
  | .undeclaredType t => "user type '" ++ t ++ "' is not declared"
  | .undeclaredField f t => "missing field '" ++ f ++ "' in user type '" ++ t ++ "'"
  | .outOfInt i => "value " ++ toString i ++ " is out of range for int"
  | .otherType e f => "expected user type '" ++ e ++ "', found '" ++ f ++ "'"
  | .otherColumn k c => "cannot store " ++ k ++ " value in column of type " ++ c.describe

/-- What can go wrong while a query is compiled or run. -/
inductive QueryError where
  /-- The store cannot express a kind of condition or a feature of the query. -/
  | unsupported (backend operation : String)
  | invalid (reason : InvalidQuery)
  | conversion (entity field : String) (fault : ConversionFault)
  /-- Two parameters of one statement would have the same name. -/
  | bindingConflict (name : String)
  | connection (message : String)
deriving DecidableEq, Repr

/-- The wording of an error. -/
def QueryError.message : QueryError → String
  | .unsupported backend operation =>
    "Unsupported operation: " ++ operation ++ " is not supported by the " ++ backend ++ " backend"
  | .invalid reason => "Invalid query: " ++ reason.message
  | .conversion entity field fault =>
    "Conversion error for field '" ++ field ++ "' of '" ++ entity ++ "': " ++ fault.message
  | .bindingConflict name =>
    "Parameter binding conflict: '" ++ name ++ "' is already bound in this statement"
  | .connection message => "Connection error: " ++ message

/-- The entity and the field that a value belongs to. -/
structure Scope where
  entity : String
  field : String
deriving DecidableEq, Repr

/-- Another field of the same entity. -/
def Scope.nested (s : Scope) (field : String) : Scope := { s with field := field }

/-- The error of a value in its place. -/
def Scope.error (s : Scope) (fault : ConversionFault) : QueryError :=
  .conversion s.entity s.field fault

end PortableQuery
