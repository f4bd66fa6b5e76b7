/-!
# Names in statements

Reserved words are lists of words in the capitals `A` to `Z`, which a name is compared with after
its full upper-casing. Besides the small letters of ASCII only ten characters have an upper case
that is made of those capitals alone; every other character keeps something outside of them, so it
may as well stay.
-/

namespace PortableQuery.Text

/-! ## Upper case -/

/-- The full upper case of a character where it consists of ASCII, the character itself where it
does not. -/
def upperChar (c : Char) : List Char :=
  match c.toNat with
  | 0xDF => ['S', 'S']
  | 0x131 => ['I']
  | 0x17F => ['S']
  | 0xFB00 => ['F', 'F']
  | 0xFB01 => ['F', 'I']
  | 0xFB02 => ['F', 'L']
  | 0xFB03 => ['F', 'F', 'I']
  | 0xFB04 => ['F', 'F', 'L']
  | 0xFB05 => ['S', 'T']
  | 0xFB06 => ['S', 'T']
  | _ => [c.toUpper]

/-- The upper case of a text, to be compared with words of capital letters. -/
def upper (s : String) : String := String.ofList (s.toList.flatMap upperChar)

/-! ## Names -/

/-- A small letter of ASCII, a digit or an underscore. -/
def isSnakeChar (c : Char) : Bool := c.isLower || c.isDigit || c == '_'

/-- A small letter, and nothing but small letters, digits and underscores behind it. -/
def isLowerSnake (name : String) : Bool :=
  match name.toList with
  | c :: cs => c.isLower && cs.all isSnakeChar
  | [] => false

/-- A letter or digit of ASCII or an underscore. -/
def isWordChar (c : Char) : Bool := c.isAlphanum || c == '_'

/-- A letter, and nothing but letters, digits and underscores behind it. -/
def isPlainWord (name : String) : Bool :=
  match name.toList with
  | c :: cs => c.isAlpha && cs.all isWordChar
  | [] => false

/-- The name is one of a list of words in capitals, whatever its case. -/
def isReserved (words : List String) (name : String) : Bool := words.contains (upper name)

/-- A character inside double quotes. -/
def quotedChar (c : Char) : List Char := if c = '"' then ['"', '"'] else [c]

/-- The name in double quotes, its own quotes doubled. -/
def doubleQuoted (name : String) : String :=
  String.ofList ('"' :: (name.toList.flatMap quotedChar ++ ['"']))

end PortableQuery.Text
