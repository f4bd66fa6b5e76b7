import PortableQuery.Number.Decimal

/-!
# Reading a decimal

An optional sign, then digits with at most one point; a `_` between or behind digits is skipped.
Behind the point, a digit that follows the twenty-eighth place or that does not fit into 96 bits
rounds the number, a half away from zero; in front of the point a number that does not fit is an
error. A *short* number, one of about 64 bits, already ends at a separator behind its twenty-eighth
place. A text with an `e` or `E` is a number and its exponent; a negative one rounds the number to
the places that are left.
-/

namespace PortableQuery.DecimalText

/-- Why a text is no decimal. -/
inductive Error where
  | empty
  | noDigits
  | unknownCharacter
  | secondPoint
  | leadingSeparator
  | overflow
  | overflowAfterRounding
  | badExponent
  | exponentTooLarge (exponent : Nat)
  | tooLarge
deriving DecidableEq, Repr

/-- The wording of an error. -/
def Error.message : Error → String
  | .empty => "Invalid decimal: empty"
  | .noDigits => "Invalid decimal: no digits found"
  | .unknownCharacter => "Invalid decimal: unknown character"
  | .secondPoint => "Invalid decimal: two decimal points"
  | .leadingSeparator => "Invalid decimal: must start lead with a number"
  | .overflow => "Invalid decimal: overflow from too many digits"
  | .overflowAfterRounding => "Invalid decimal: overflow from mantissa after rounding"
  | .badExponent => "Failed to parse"
  | .exponentTooLarge e => "Scale exceeds the maximum precision allowed: " ++ toString e ++ " > 28"
  | .tooLarge => "Number exceeds maximum value that can be represented."

/-! ## Numbers without an exponent -/

/-- The digits that count no more: nothing but digits and separators. -/
def checkTail (cs : List Char) : Except Error Unit :=
  match cs.find? fun c => !(c.isDigit || c = '_') with
  | none => .ok ()
  | some c => .error (if c = '.' then .secondPoint else .unknownCharacter)

/-- What has been read of a number. -/
structure Progress where
  coefficient : Fin (2 ^ 96)
  scale : Fin 29
  pointSeen : Bool
  digitSeen : Bool

namespace Progress

/-- Nothing has been read. -/
def start : Progress := ⟨0, 0, false, false⟩

/-- The number as read so far, which needs a digit. -/
def finish (negative : Bool) (p : Progress) : Except Error Decimal :=
  if p.digitSeen then .ok (.make negative p.coefficient p.scale) else .error .noDigits

/-- The number with its coefficient one larger; one that then has 97 bits gives up its last
place. -/
def roundUp (negative : Bool) (p : Progress) : Except Error Decimal :=
  if h : p.coefficient.val + 1 < 2 ^ 96 then
    .ok (.make negative ⟨p.coefficient.val + 1, h⟩ p.scale)
  else if p.scale.val = 0 then .error .overflowAfterRounding
  else
    .ok (.make negative ⟨(p.coefficient.val + 5) / 10, by omega⟩ ⟨p.scale.val - 1, by omega⟩)

/-- End the reading at the digit `next` behind the last one that counts. A number that rounding makes
too large is an error before anything in the rest. -/
def round (negative : Bool) (p : Progress) (next : Char) (rest : List Char) :
    Except Error Decimal := do
  let d ← if 5 ≤ Digits.digit next then p.roundUp negative else p.finish negative
  checkTail rest
  pure d

/-- A number is short if another digit surely leaves its coefficient within 64 bits. -/
def isShort (p : Progress) : Bool := p.coefficient.val < (2 ^ 64 - 1) / 10 - 255

/-- What a character leads to: the end of the reading, or more of it. -/
inductive Outcome where
  | done (result : Except Error Decimal)
  | more (progress : Progress)

/-- Read the character `c` in front of the rest `cs`. A digit that is met behind all 28 places stands
behind a separator. -/
def step (negative : Bool) (p : Progress) (c : Char) (cs : List Char) : Outcome :=
  if c.isDigit then
    if h : 10 * p.coefficient.val + Digits.digit c < 2 ^ 96 then
      let coefficient : Fin (2 ^ 96) := ⟨10 * p.coefficient.val + Digits.digit c, h⟩
      if p.pointSeen then
        if hs : p.scale.val + 1 < 29 then
          let longer : Progress := ⟨coefficient, ⟨p.scale.val + 1, hs⟩, true, true⟩
          match cs with
          | [] => .more longer
          | d :: rest =>
            if longer.scale = 28 ∧ d.isDigit then .done (longer.round negative d rest)
            else if longer.scale = 28 ∧ d = '_' ∧ p.isShort then .done do
              checkTail rest
              longer.finish negative
            else .more longer
        else .done (p.round negative c cs)
      else .more ⟨coefficient, p.scale, false, true⟩
    else if p.pointSeen then .done (p.round negative c cs)
    else .done (.error .overflow)
  else if c = '.' then
    if p.pointSeen then .done (.error .secondPoint) else .more { p with pointSeen := true }
  else if c = '_' then
    if p.digitSeen then .more p else .done (.error .leadingSeparator)
  else .done (.error .unknownCharacter)

/-- Read the rest of a number. -/
def run (negative : Bool) : Progress → List Char → Except Error Decimal
  | p, [] => p.finish negative
  | p, c :: cs =>
    match p.step negative c cs with
    | .done result => result
    | .more q => run negative q cs

end Progress

/-- The decimal of a text without an exponent. -/
def plain (cs : List Char) : Except Error Decimal :=
  match cs with
  | [] => .error .empty
  | '-' :: r => Progress.start.run true r
  | '+' :: r => Progress.start.run false r
  | _ => Progress.start.run false cs

/-! ## Numbers with an exponent -/

/-- The mark in front of an exponent. -/
def isExponentMark (c : Char) : Bool := c = 'e' || c = 'E'

/-- An exponent of 32 bits: digits with an optional `+`. -/
def exponent (cs : List Char) : Except Error Nat :=
  let ds := match cs with
    | '+' :: r => r
    | _ => cs
  if ds.isEmpty ∨ ds.any (!·.isDigit) ∨ 2 ^ 32 ≤ Digits.value ds then .error .badExponent
  else .ok (Digits.value ds)

/-- The decimal `d · 10 ^ e`: an exponent that the places outweigh takes places away, and a larger
one multiplies, which leaves an integer. -/
def raise (d : Decimal) (e : Nat) : Except Error Decimal :=
  if e ≤ d.scale.val then .ok { d with scale := ⟨d.scale.val - e, by omega⟩ }
  else if e ≤ 28 then
    let c := d.coefficient.val * 10 ^ (e - d.scale.val)
    if h : c < 2 ^ 96 then .ok (.make d.negative ⟨c, h⟩ 0) else .error .tooLarge
  else .error (.exponentTooLarge e)

/-- The decimal `d · 10 ^ -e`, which has `e` more places; the number gives up those of its own that
are then too many. -/
def lower (d : Decimal) (e : Nat) : Except Error Decimal :=
  if h : e ≤ 28 then
    let places : Fin 29 := ⟨28 - e, by omega⟩
    let r := d.rounded places
    have hr : r.scale.val ≤ 28 - e := d.scale_rounded_le places
    .ok { r with scale := ⟨r.scale.val + e, by omega⟩ }
  else .error (.exponentTooLarge e)

/-- The decimal of a text with an exponent. An error of the number counts before one of the
exponent. -/
def scientific (cs : List Char) : Except Error Decimal := do
  let number := cs.takeWhile (!isExponentMark ·)
  let d ← plain number
  match cs.drop (number.length + 1) with
  | '-' :: r => lower d (← exponent r)
  | r => raise d (← exponent r)

/-- The decimal of a text. -/
def read (s : String) : Except Error Decimal :=
  if s.toList.any isExponentMark then scientific s.toList else plain s.toList

end PortableQuery.DecimalText
