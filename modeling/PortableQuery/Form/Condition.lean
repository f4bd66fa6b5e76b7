import PortableQuery.Condition
import PortableQuery.Form.Value

/-!
# The JSON form of conditions

A condition is a variant. The fields of a predicate stand in an object; where the condition is read
as a document of its own they may stand in an array, too.
-/

namespace PortableQuery

open JsonForm

namespace Operator

/-- The name of an operator in the JSON form. -/
def formName : Operator → String
  | .equals => "EQUALS"
  | .greater => "GREATER_THAN"
  | .greaterOrEqual => "GREATER_EQUALS"
  | .less => "LESSER_THAN"
  | .lessOrEqual => "LESSER_EQUALS"
  | .oneOf => "IN"
  | .like => "LIKE"
  | .between => "BETWEEN"

/-- The operator of a name. -/
def ofFormName? (name : String) : Option Operator := Operator.all.find? (·.formName == name)

@[simp] theorem ofFormName?_formName (o : Operator) : ofFormName? o.formName = some o := by
  cases o <;> decide

/-- The JSON form of an operator. -/
def toJson (o : Operator) : Json := .string o.formName

/-- The operator of a form. -/
def ofRaw? (j : RawJson) : Option Operator := do
  let (name, data) ← variant? j
  if isUnit data then ofFormName? name else none

/-- The operator of a JSON form. -/
def ofJson? (j : Json) : Option Operator := ofRaw? j.raw

end Operator

/-- Where a form stands: it is a document of its own, or a part of a larger one. -/
inductive Placement where
  | document
  | part
deriving DecidableEq, Repr

namespace Condition

mutual

/-- The JSON form of a condition. -/
def toJson : Condition → Json
  | predicate o e => .single "predicate" (.object [⟨"operator", o.toJson⟩, ⟨"element", e.toJson⟩])
  | join .and children => .single "and" (.array (childrenToJson children))
  | join .or children => .single "or" (.array (childrenToJson children))
  | not child => .single "not" (toJson child)
termination_by structural c => c

/-- The JSON form of each condition. -/
def childrenToJson : List Condition → List Json
  | [] => []
  | c :: cs => toJson c :: childrenToJson cs
termination_by structural cs => cs

end

/-- The predicate of a record of an operator and an element. -/
def predicateOfRaw? (j : RawJson) : Option Condition := do
  match ← record? ["operator", "element"] 2 j with
  | [some o, some e] => pure (.predicate (← Operator.ofRaw? o) (← Element.ofRaw? e))
  | _ => none

mutual

/-- The condition of a form. -/
def ofRaw? (p : Placement) : RawJson → Option Condition
  | .object [⟨case, .array items⟩] =>
    if case = "and" then (childrenOfRaw? p items).map (.join .and)
    else if case = "or" then (childrenOfRaw? p items).map (.join .or)
    else if case = "predicate" ∧ p = .document then predicateOfRaw? (.array items)
    else none
  | .object [⟨case, data⟩] =>
    if case = "not" then (ofRaw? p data).map .not
    else if case = "predicate" then predicateOfRaw? data
    else none
  | _ => none
termination_by structural j => j

/-- The conditions of an array. -/
def childrenOfRaw? (p : Placement) : List RawJson → Option (List Condition)
  | [] => some []
  | j :: js => do
    let c ← ofRaw? p j
    let cs ← childrenOfRaw? p js
    pure (c :: cs)
termination_by structural js => js

end

/-- The condition of a JSON form. -/
def ofJson? (p : Placement) (j : Json) : Option Condition := ofRaw? p j.raw

end Condition

end PortableQuery
