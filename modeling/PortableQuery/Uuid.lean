import PortableQuery.Number.Digits

/-!
# Universally unique identifiers

* `Uuid`: sixteen bytes; `Uuid.ofBytes?`;
* `Uuid.text`: lower-case hexadecimal digits in groups of 8, 4, 4, 4 and 12;
* `Uuid.read?`: that form in any case, also without dashes, in braces or behind `urn:uuid:`, which
  may be in any case, too.
-/

namespace PortableQuery

/-- Sixteen bytes. -/
structure Uuid where
  bytes : List UInt8
  length_bytes : bytes.length = 16
deriving DecidableEq, Repr

namespace Uuid

/-- The identifier of a byte sequence, if there are sixteen of them. -/
def ofBytes? (bytes : List UInt8) : Option Uuid :=
  if h : bytes.length = 16 then some ⟨bytes, h⟩ else none

@[simp] theorem ofBytes?_bytes (u : Uuid) : ofBytes? u.bytes = some u := by
  simp [ofBytes?, u.length_bytes]

/-- A hexadecimal digit in lower case. -/
def hexDigit (n : Nat) : Char := Nat.digitChar n

/-- The two digits of a byte. -/
def byteText (b : UInt8) : List Char := [hexDigit (b.toNat / 16), hexDigit (b.toNat % 16)]

/-- The hyphenated text in lower case. -/
def text (u : Uuid) : String :=
  let hex (i n : Nat) : List Char := ((u.bytes.drop i).take n).flatMap byteText
  String.ofList
    (hex 0 4 ++ '-' :: hex 4 2 ++ '-' :: hex 6 2 ++ '-' :: hex 8 2 ++ '-' :: hex 10 6)

/-- Pairs of hexadecimal digits as bytes. -/
def hexBytes? : List Char → Option (List UInt8)
  | [] => some []
  | [_] => none
  | a :: b :: rest => do
    let h ← Digits.hexValue? a
    let l ← Digits.hexValue? b
    let bytes ← hexBytes? rest
    pure (UInt8.ofNat (16 * h + l) :: bytes)

/-- The 32 digits of a text of 36 characters that has dashes behind 8, 12, 16 and 20 of them. -/
def undashed? (cs : List Char) : Option (List Char) :=
  let part (i n : Nat) : List Char := (cs.drop i).take n
  if cs.length = 36 ∧ [8, 13, 18, 23].all (fun i => part i 1 = ['-']) then
    some (part 0 8 ++ part 9 4 ++ part 14 4 ++ part 19 4 ++ part 24 12)
  else none

/-- The identifier of a text: 32 digits, or the hyphenated form, which may stand in braces or behind
`urn:uuid:`, in any case. -/
def read? (s : String) : Option Uuid := do
  let cs := s.toList
  let digits ←
    if cs.length = 32 then some cs
    else if cs.length = 38 ∧ cs.head? = some '\x7b' ∧ cs.getLast? = some '\x7d' then
      undashed? (cs.drop 1).dropLast
    else if (cs.take 9).map Char.toLower = "urn:uuid:".toList then undashed? (cs.drop 9)
    else undashed? cs
  ofBytes? (← hexBytes? digits)

end Uuid

end PortableQuery
