import PortableQuery.Error

/-!
# Binding parameters

A binder collects the values of one statement in the order in which they are bound and hands out the
placeholder that stands for each of them. Numbers and derived names come from one counter, so no two
values of a statement share a name.
-/

namespace PortableQuery

/-- How a placeholder is written. -/
inductive ParamStyle where
  /-- `$1`, `$2`, … -/
  | dollar
  /-- `?` -/
  | question
  /-- A sigil and a name, as in `@age_2`. -/
  | named (sigil : Char)
  /-- Not at all: values stand in the statement themselves. -/
  | inline
deriving DecidableEq, Repr

/-- A bound value, with a name where values have names. -/
structure Parameter (N : Type) where
  name : Option String
  value : N
deriving Repr

/-- The values of a statement, as bound so far. -/
structure Binder (N : Type) where
  style : ParamStyle
  firstOrdinal : Nat := 1
  parameters : List (Parameter N) := []
deriving Repr

/-- A character of a name: letters and digits of ASCII and the underscore stay. -/
def nameChar (c : Char) : Char := if c.isAlphanum ∨ c = '_' then c else '_'

/-- The name of the value bound at `ordinal` for `field`; it starts with no digit and is not empty
before its number. -/
def parameterName (field : String) (ordinal : Nat) : String :=
  let base := field.toList.map nameChar
  let safe := match base with
    | [] => ['p']
    | c :: cs => if c.isDigit then 'p' :: c :: cs else c :: cs
  String.ofList safe ++ "_" ++ toString ordinal

namespace Binder

variable {N : Type}

/-- The ordinal of the next value. -/
def nextOrdinal (b : Binder N) : Nat := b.firstOrdinal + b.parameters.length

/-- The binder with one more value. -/
def push (b : Binder N) (name : Option String) (value : N) : Binder N :=
  { b with parameters := b.parameters ++ [⟨name, value⟩] }

/-- A value of this name is bound. -/
def binds (b : Binder N) (name : String) : Bool := b.parameters.any (·.name == some name)

/-- The placeholder of a named value. -/
def namedPlaceholder (style : ParamStyle) (name : String) : String :=
  match style with
  | .named sigil => String.singleton sigil ++ name
  | _ => ":" ++ name

/-- Bind a value under a name, which must not be in use. -/
def bindNamed (b : Binder N) (name : String) (value : N) : Except QueryError (String × Binder N) :=
  if b.binds name then .error (.bindingConflict name)
  else .ok (namedPlaceholder b.style name, b.push (some name) value)

/-- Bind a value for a field. -/
def bind (b : Binder N) (field : String) (value : N) : Except QueryError (String × Binder N) :=
  match b.style with
  | .dollar => .ok ("$" ++ toString b.nextOrdinal, b.push none value)
  | .question => .ok ("?", b.push none value)
  | .inline => .ok ("", b.push none value)
  | .named _ => b.bindNamed (parameterName field b.nextOrdinal) value

/-- Bind values for a field, one after the other. -/
def bindAll (b : Binder N) (field : String) :
    List N → Except QueryError (List String × Binder N)
  | [] => .ok ([], b)
  | v :: vs => do
    let (p, b) ← b.bind field v
    let (ps, b) ← b.bindAll field vs
    pure (p :: ps, b)

end Binder

end PortableQuery
