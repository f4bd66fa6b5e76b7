import PortableQuery.Named
import PortableQuery.Number.Double

/-!
# JSON values

A JSON value keeps the order of an object's members. Integers and other numbers are told apart, and
a number with a fraction or exponent is a finite double.
-/

namespace PortableQuery

/-- A JSON value. -/
inductive Json where
  | null
  | bool (b : Bool)
  | int (i : Int)
  | double (d : FiniteDouble)
  | string (s : String)
  | array (items : List Json)
  | object (members : List (Named Json))
deriving Repr

namespace Json

/-- The object with one member. -/
def single (name : String) (value : Json) : Json := .object [⟨name, value⟩]

/-- The object that arises when members are put into it one after the other. -/
def objectOf (members : List (Named Json)) : Json := .object (Named.merge members)

/-- The characters of a string. -/
def string? : Json → Option String
  | string s => some s
  | _ => none

/-- The member of an object under a name. -/
def member? (name : String) : Json → Option Json
  | object members => Named.get? name members
  | _ => none

/-! ## Repeated members -/

mutual

/-- No object in the value names a member twice. -/
def WellFormed : Json → Prop
  | array items => AllWellFormed items
  | object members => (Named.names members).Nodup ∧ MembersWellFormed members
  | _ => True
termination_by structural j => j

/-- Every item is well formed. -/
def AllWellFormed : List Json → Prop
  | [] => True
  | j :: js => WellFormed j ∧ AllWellFormed js
termination_by structural js => js

/-- The value of every member is well formed. -/
def MembersWellFormed : List (Named Json) → Prop
  | [] => True
  | ⟨_, j⟩ :: ms => WellFormed j ∧ MembersWellFormed ms
termination_by structural ms => ms

end

end Json

end PortableQuery
