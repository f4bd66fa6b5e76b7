import PortableQuery.Error

/-!
# What a store can express

Every dialect declares its capabilities, and a condition is checked against them as a whole before
anything is lowered, so nothing unsupported is ever compiled halfway.
-/

namespace PortableQuery

/-- Which conditions a store can negate. -/
inductive Negation where
  | unsupported
  | predicates
  | any
deriving DecidableEq, Repr

/-- How a store continues a result: by an offset, or by a cursor of its own. -/
inductive Paging where
  | offset
  | cursor
deriving DecidableEq, Repr

/-- What a store can express. -/
structure Capabilities where
  operators : List Operator
  and : Bool
  or : Bool
  negation : Negation
  /-- Predicates on the identity may be turned into key lookups. -/
  pointLookup : Bool
  paging : Paging
deriving Repr

namespace Capabilities

/-- The store can join conditions by this connective. -/
def joins (c : Capabilities) : Connective → Bool
  | .and => c.and
  | .or => c.or

/-- The name of a negation of `child` that the store cannot express. -/
def badNegation (c : Capabilities) (child : Condition) : Option String :=
  match c.negation, child with
  | .unsupported, _ => some "NOT"
  | .predicates, .predicate _ _ => none
  | .predicates, child => some ("NOT(" ++ child.kind.name ++ ")")
  | .any, _ => none

mutual

/-- The name of the first node, parents before children and children from left to right, that the
store cannot express. -/
def firstUnsupported (c : Capabilities) : Condition → Option String
  | .predicate o _ => if o ∈ c.operators then none else some o.name
  | .join connective children =>
    if c.joins connective then firstUnsupportedOf c children else some connective.name
  | .not child =>
    match c.badNegation child with
    | some operation => some operation
    | none => firstUnsupported c child
termination_by structural x => x

/-- The first unsupported node of several conditions. -/
def firstUnsupportedOf (c : Capabilities) : List Condition → Option String
  | [] => none
  | child :: children =>
    match firstUnsupported c child with
    | some operation => some operation
    | none => firstUnsupportedOf c children
termination_by structural xs => xs

end

/-- The condition can be expressed by the store `backend`. -/
def check (c : Capabilities) (backend : String) (condition : Condition) : Except QueryError Unit :=
  match c.firstUnsupported condition with
  | some operation => .error (.unsupported backend operation)
  | none => .ok ()

end Capabilities

end PortableQuery
