import PortableQuery.Value

/-!
# Conditions

A condition is a predicate on one element, a conjunction or disjunction of conditions, or the
negation of one.
-/

namespace PortableQuery

/-- What a predicate compares by. -/
inductive Operator where
  | equals
  | greater
  | greaterOrEqual
  | less
  | lessOrEqual
  | oneOf
  | like
  | between
deriving DecidableEq, Repr

/-- All operators, in their customary order. -/
def Operator.all : List Operator :=
  [.equals, .greater, .greaterOrEqual, .less, .lessOrEqual, .oneOf, .like, .between]

/-- What joins conditions. -/
inductive Connective where
  | and
  | or
deriving DecidableEq, Repr

/-- The kind of a node of a condition. -/
inductive ConditionKind where
  | predicate (operator : Operator)
  | join (connective : Connective)
  | not
deriving DecidableEq, Repr

/-- The name of an operator in messages. -/
def Operator.name : Operator → String
  | .equals => "EQUALS"
  | .greater => "GT"
  | .greaterOrEqual => "GTE"
  | .less => "LT"
  | .lessOrEqual => "LTE"
  | .oneOf => "IN"
  | .like => "LIKE"
  | .between => "BETWEEN"

/-- The name of a connective in messages. -/
def Connective.name : Connective → String
  | .and => "AND"
  | .or => "OR"

/-- The name of a kind in messages. -/
def ConditionKind.name : ConditionKind → String
  | .predicate o => o.name
  | .join c => c.name
  | .not => "NOT"

/-- A condition on the elements of an entity. -/
inductive Condition where
  | predicate (operator : Operator) (element : Element)
  | join (connective : Connective) (children : List Condition)
  | not (child : Condition)
deriving Repr

namespace Condition

/-- The kind of the root. -/
def kind : Condition → ConditionKind
  | predicate o _ => .predicate o
  | join c _ => .join c
  | not _ => .not

end Condition

end PortableQuery
