/-!
# Base64

Bytes as text, three bytes in four characters. A *variant* fixes the last two characters of the
alphabet and whether a short last group is filled up with `=`; reading is as strict as writing, it
wants the padding exactly where writing puts it and refuses bits that stand for nothing.
-/

namespace PortableQuery.Base64

/-- An alphabet's last two characters, and whether padding is written and wanted. -/
structure Variant where
  symbol62 : Char
  symbol63 : Char
  padded : Bool

/-- `+` and `/`, with padding. -/
def standard : Variant := ⟨'+', '/', true⟩

/-- `-` and `_`, without padding. -/
def urlSafe : Variant := ⟨'-', '_', false⟩

/-- Why a text is no base64. -/
inductive Error where
  | invalidByte (byte : UInt8) (offset : Nat)
  | invalidLength
  | invalidLastSymbol (byte : UInt8) (offset : Nat)
  | invalidPadding
deriving DecidableEq, Repr

/-- The wording of an error. -/
def Error.message : Error → String
  | .invalidByte b i => s!"Invalid byte {b.toNat}, offset {i}."
  | .invalidLength => "Encoded text cannot have a 6-bit remainder."
  | .invalidLastSymbol b i => s!"Invalid last symbol {b.toNat}, offset {i}."
  | .invalidPadding => "Invalid padding"

/-! ## The alphabet -/

/-- The character of a six-bit number. -/
def Variant.symbol (v : Variant) (n : Nat) : Char :=
  if n < 26 then Char.ofNat ('A'.toNat + n)
  else if n < 52 then Char.ofNat ('a'.toNat + (n - 26))
  else if n < 62 then Char.ofNat ('0'.toNat + (n - 52))
  else if n = 62 then v.symbol62
  else v.symbol63

/-- The six-bit number of a character of the alphabet. -/
def Variant.index? (v : Variant) (c : Char) : Option Nat :=
  if c.isUpper then some (c.toNat - 'A'.toNat)
  else if c.isLower then some (c.toNat - 'a'.toNat + 26)
  else if c.isDigit then some (c.toNat - '0'.toNat + 52)
  else if c = v.symbol62 then some 62
  else if c = v.symbol63 then some 63
  else none

/-- The six-bit number of a byte of the alphabet. -/
def Variant.byteIndex? (v : Variant) (b : UInt8) : Option Nat := v.index? (Char.ofNat b.toNat)

/-! ## Writing -/

/-- The six-bit numbers of a byte sequence, a short last group filled up with zero bits. -/
def sextets : List UInt8 → List Nat
  | [] => []
  | [a] => [a.toNat / 4, a.toNat % 4 * 16]
  | [a, b] => [a.toNat / 4, a.toNat % 4 * 16 + b.toNat / 16, b.toNat % 16 * 4]
  | a :: b :: c :: rest =>
    a.toNat / 4 :: (a.toNat % 4 * 16 + b.toNat / 16) :: (b.toNat % 16 * 4 + c.toNat / 64) ::
      c.toNat % 64 :: sextets rest

/-- The text of a byte sequence. -/
def encode (v : Variant) (bytes : List UInt8) : String :=
  let symbols := (sextets bytes).map v.symbol
  let fill := if v.padded then List.replicate ((4 - symbols.length % 4) % 4) '=' else []
  String.ofList (symbols ++ fill)

/-! ## Reading -/

/-- The byte `=`. -/
def padByte : UInt8 := 61

/-- The first byte that may not stand where it stands. Padding may start in the last block of eight
bytes only, behind two or three characters of its group, and nothing but padding may follow it; a
padding byte that breaks this is reported where the padding began. -/
def firstFault (v : Variant) (lastBlock : Nat) :
    Nat → Option Nat → List UInt8 → Option Error
  | _, _, [] => none
  | i, padding, b :: bs =>
    if b = padByte then
      if i < lastBlock then some (.invalidByte b i)
      else if i % 4 < 2 then some (.invalidByte b (padding.getD i))
      else firstFault v lastBlock (i + 1) (some (padding.getD i)) bs
    else
      match padding, v.byteIndex? b with
      | some p, _ => some (.invalidByte padByte p)
      | none, none => some (.invalidByte b i)
      | none, some _ => firstFault v lastBlock (i + 1) none bs

/-- The bytes of a sequence of six-bit numbers, and whether the bits behind the last whole byte are
all zero. -/
def bytesOf : List Nat → List UInt8 × Bool
  | a :: b :: c :: d :: rest =>
    let (bytes, clean) := bytesOf rest
    (UInt8.ofNat (a * 4 + b / 16) :: UInt8.ofNat (b % 16 * 16 + c / 4) ::
      UInt8.ofNat (c % 4 * 64 + d) :: bytes, clean)
  | [a, b, c] => ([UInt8.ofNat (a * 4 + b / 16), UInt8.ofNat (b % 16 * 16 + c / 4)], c % 4 = 0)
  | [a, b] => ([UInt8.ofNat (a * 4 + b / 16)], b % 16 = 0)
  | _ => ([], true)

/-- A text whose length leaves a single character in its last group: the last byte is at fault if
it belongs to no base64 text, else the length is. -/
def lengthFault (v : Variant) (bytes : List UInt8) : Option Error :=
  if bytes.length % 4 = 1 then
    match bytes.getLast? with
    | some b =>
      if b ≠ padByte ∧ v.byteIndex? b = none then some (.invalidByte b (bytes.length - 1))
      else some .invalidLength
    | none => some .invalidLength
  else none

/-- The padding is where the variant wants it: whole groups, or none at all. -/
def paddingFits (v : Variant) (bytes : List UInt8) : Bool :=
  if v.padded then bytes.length % 4 = 0 else !bytes.contains padByte

/-- The bytes of a text. Faults are looked for in this order: the length, the bytes from left to
right, the padding, the bits behind the last whole byte. -/
def decode (v : Variant) (text : String) : Except Error (List UInt8) :=
  let bytes := text.toUTF8.toList
  match lengthFault v bytes, firstFault v ((bytes.length - 1) / 8 * 8) 0 none bytes with
  | some e, _ => .error e
  | none, some e => .error e
  | none, none =>
    if paddingFits v bytes then
      let symbols := bytes.takeWhile (· ≠ padByte)
      let (decoded, clean) := bytesOf (symbols.filterMap v.byteIndex?)
      if clean then .ok decoded
      else .error (.invalidLastSymbol (symbols.getLast?.getD 0) (symbols.length - 1))
    else .error .invalidPadding

example : encode standard [1] = "AQ==" := by decide +kernel
example : encode urlSafe [255, 254] = "__4" := by decide +kernel

end PortableQuery.Base64
