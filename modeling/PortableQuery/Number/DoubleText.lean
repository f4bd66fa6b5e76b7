import PortableQuery.Number.Digits
import PortableQuery.Number.Double

/-!
# Reading a double

An optional sign, then `inf`, `infinity` or `nan` in any case, or digits with an optional point and
an optional exponent; at least one digit stands before the exponent, and nothing else is allowed, no
white space either.
-/

namespace PortableQuery.DoubleText

/-- Why a text is no double. -/
inductive Error where
  | empty
  | invalid
deriving DecidableEq, Repr

/-- The wording of an error. -/
def Error.message : Error → String
  | .empty => "cannot parse float from empty string"
  | .invalid => "invalid float literal"

/-- The exponent part: nothing, or `e` with an optional sign and at least one digit. -/
def exponent? : List Char → Option Int
  | [] => some 0
  | e :: rest =>
    if e = 'e' ∨ e = 'E' then
      let (negative, ds) := match rest with
        | '-' :: r => (true, r)
        | '+' :: r => (false, r)
        | r => (false, r)
      if ds.isEmpty ∨ ds.any (!·.isDigit) then none
      else some (if negative then -(Digits.value ds : Int) else Digits.value ds)
    else none

/-- Digits with an optional point and exponent, as the double nearest to them. -/
def number? (negative : Bool) (cs : List Char) : Option Double :=
  let whole := cs.takeWhile Char.isDigit
  let rest := cs.dropWhile Char.isDigit
  let (fraction, tail) := match rest with
    | '.' :: r => (r.takeWhile Char.isDigit, r.dropWhile Char.isDigit)
    | r => ([], r)
  if whole.isEmpty ∧ fraction.isEmpty then none
  else (exponent? tail).map fun e =>
    .ofScientific negative (Digits.value (whole ++ fraction)) (e - fraction.length)

/-- The names of the values that are not finite. -/
def special? (negative : Bool) (cs : List Char) : Option Double :=
  match String.ofList (cs.map Char.toLower) with
  | "inf" => some (.infinite negative)
  | "infinity" => some (.infinite negative)
  | "nan" => some .nan
  | _ => none

/-- The double that a text stands for. -/
def read (s : String) : Except Error Double :=
  let unsigned (negative : Bool) (cs : List Char) : Except Error Double :=
    match number? negative cs <|> special? negative cs with
    | some d => .ok d
    | none => .error .invalid
  match s.toList with
  | [] => .error .empty
  | '-' :: cs => unsigned true cs
  | '+' :: cs => unsigned false cs
  | cs => unsigned false cs

end PortableQuery.DoubleText
