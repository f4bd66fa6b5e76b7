import PortableQuery.Json.Basic
import PortableQuery.Number.Shortest

/-!
# JSON text

Compact: no white space, members in their order.
-/

namespace PortableQuery

namespace JsonText

/-- A character as it stands in a string: quotes, backslashes and control characters are escaped,
everything else stands for itself. -/
def escaped (c : Char) : List Char :=
  match c with
  | '"' => ['\\', '"']
  | '\\' => ['\\', '\\']
  | '\n' => ['\\', 'n']
  | '\r' => ['\\', 'r']
  | '\t' => ['\\', 't']
  | c =>
    if c.toNat = 8 then ['\\', 'b']
    else if c.toNat = 12 then ['\\', 'f']
    else if c.toNat < 32 then
      ['\\', 'u', '0', '0', Nat.digitChar (c.toNat / 16), Nat.digitChar (c.toNat % 16)]
    else [c]

/-- A string in its quotes. -/
def quotedChars (s : String) : List Char := '"' :: (s.toList.flatMap escaped ++ ['"'])

@[inherit_doc quotedChars]
def quoted (s : String) : String := String.ofList (quotedChars s)

end JsonText

namespace Json

mutual

/-- The characters of a value. -/
def chars : Json → List Char
  | null => ['n', 'u', 'l', 'l']
  | bool true => ['t', 'r', 'u', 'e']
  | bool false => ['f', 'a', 'l', 's', 'e']
  | int i => (toString i).toList
  | double d => (d.text jsonLayout).toList
  | string s => JsonText.quotedChars s
  | array items => '[' :: (itemChars items ++ [']'])
  | object members => '\x7b' :: (memberChars members ++ ['\x7d'])
termination_by structural j => j

/-- The characters of the items of an array. -/
def itemChars : List Json → List Char
  | [] => []
  | [j] => chars j
  | j :: js => chars j ++ ',' :: itemChars js
termination_by structural js => js

/-- The characters of the members of an object. -/
def memberChars : List (Named Json) → List Char
  | [] => []
  | [⟨name, j⟩] => JsonText.quotedChars name ++ ':' :: chars j
  | ⟨name, j⟩ :: ms => JsonText.quotedChars name ++ ':' :: (chars j ++ ',' :: memberChars ms)
termination_by structural ms => ms

end

/-- The text of a value. -/
def text (j : Json) : String := String.ofList j.chars

end Json

end PortableQuery
