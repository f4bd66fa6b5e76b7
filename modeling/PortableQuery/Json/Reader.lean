import PortableQuery.Json.Raw
import PortableQuery.Number.Scaled

/-!
# Reading JSON

The grammar of RFC 8259. Three kinds of parts are read and represent no value: an array or object
inside 127 others, a number whose double is infinite, and a string with a lone surrogate among its
escapes. Which double a decimal is depends on the way in which decimals are read.
-/

namespace PortableQuery

namespace JsonReader

/-- The characters without the white space in front of them. -/
def skip (cs : List Char) : List Char :=
  cs.dropWhile fun c => c = ' ' || c = '\n' || c = '\t' || c = '\r'

/-! ## Numbers -/

/-- An optional fraction: its digits, at least one behind the point. -/
def fraction? : List Char → Option (List Char × List Char)
  | '.' :: cs =>
    let ds := cs.takeWhile Char.isDigit
    if ds.isEmpty then none else some (ds, cs.drop ds.length)
  | cs => some ([], cs)

/-- The digits of an exponent, at least one, as a number. -/
def exponentDigits? (cs : List Char) : Option (Nat × List Char) :=
  let ds := cs.takeWhile Char.isDigit
  if ds.isEmpty then none else some (Digits.value ds, cs.drop ds.length)

/-- An optional exponent. -/
def exponent? : List Char → Option (Option Int × List Char)
  | e :: cs =>
    if e = 'e' ∨ e = 'E' then
      match cs with
      | '-' :: r => (exponentDigits? r).map fun (n, r) => (some (-(n : Int)), r)
      | '+' :: r => (exponentDigits? r).map fun (n, r) => (some (n : Int), r)
      | r => (exponentDigits? r).map fun (n, r) => (some (n : Int), r)
    else some (none, e :: cs)
  | [] => some (none, [])

/-- A double as JSON; it is beyond JSON if it is not finite. -/
def ofDouble : Option FiniteDouble → RawJson
  | some d => .double d
  | none => .beyond

/-- An integer by its digits: as it is if it fits 64 bits, signed or unsigned, else as a double. -/
def ofInteger (m : NumberReading) (negative : Bool) (whole : List Char) : RawJson :=
  let n := Digits.value whole
  if negative then
    if n ≠ 0 ∧ n ≤ 2 ^ 63 then .int (-(n : Int)) else ofDouble (m.decimal? true whole [] 0)
  else if n < 2 ^ 64 then .int n
  else ofDouble (m.decimal? false whole [] 0)

/-- A number behind its sign. -/
def unsigned? (m : NumberReading) (negative : Bool) (cs : List Char) :
    Option (RawJson × List Char) := do
  let whole := cs.takeWhile Char.isDigit
  if whole.isEmpty ∨ (whole.head? = some '0' ∧ 1 < whole.length) then failure
  let (ds, rest) ← fraction? (cs.drop whole.length)
  let (e, rest) ← exponent? rest
  if ds.isEmpty ∧ e.isNone then pure (ofInteger m negative whole, rest)
  else pure (ofDouble (m.decimal? negative whole ds (e.getD 0)), rest)

/-- A number. -/
def number? (m : NumberReading) : List Char → Option (RawJson × List Char)
  | '-' :: cs => unsigned? m true cs
  | cs => unsigned? m false cs

/-! ## Strings -/

/-- A piece of a string: a character, or a UTF-16 unit by its number. -/
inductive Piece where
  | char (c : Char)
  | unit (u : Nat)
deriving DecidableEq, Repr

/-- The first unit of a surrogate pair. -/
def isHighSurrogate (u : Nat) : Bool := 0xD800 ≤ u && u < 0xDC00

/-- The second unit of a surrogate pair. -/
def isLowSurrogate (u : Nat) : Bool := 0xDC00 ≤ u && u < 0xE000

/-- The characters of pieces; none if a surrogate has no partner. -/
def decode? : List Piece → Option (List Char)
  | [] => some []
  | .char c :: ps => (decode? ps).map (c :: ·)
  | .unit u :: ps =>
    if isHighSurrogate u then
      match ps with
      | .unit v :: ps =>
        if isLowSurrogate v then
          (decode? ps).map (Char.ofNat (0x10000 + (u - 0xD800) * 1024 + (v - 0xDC00)) :: ·)
        else none
      | _ => none
    else if isLowSurrogate u then none
    else (decode? ps).map (Char.ofNat u :: ·)

/-- A unit by four hexadecimal digits. -/
def unit? : List Char → Option (Piece × List Char)
  | a :: b :: c :: d :: cs => do
    let a ← Digits.hexValue? a
    let b ← Digits.hexValue? b
    let c ← Digits.hexValue? c
    let d ← Digits.hexValue? d
    pure (.unit (a * 4096 + b * 256 + c * 16 + d), cs)
  | _ => none

/-- The piece of an escape, behind its backslash. -/
def escape? : List Char → Option (Piece × List Char)
  | 'u' :: cs => unit? cs
  | '"' :: cs => some (.char '"', cs)
  | '\\' :: cs => some (.char '\\', cs)
  | '/' :: cs => some (.char '/', cs)
  | 'b' :: cs => some (.char (Char.ofNat 8), cs)
  | 'f' :: cs => some (.char (Char.ofNat 12), cs)
  | 'n' :: cs => some (.char '\n', cs)
  | 'r' :: cs => some (.char '\r', cs)
  | 't' :: cs => some (.char '\t', cs)
  | _ => none

/-- The pieces of a string behind its opening quote, up to the closing one; every step takes a
character at least. -/
def pieces? : Nat → List Char → Option (List Piece × List Char)
  | 0, _ => none
  | _ + 1, [] => none
  | fuel + 1, c :: cs =>
    if c = '"' then some ([], cs)
    else if c = '\\' then do
      let (p, cs) ← escape? cs
      let (ps, cs) ← pieces? fuel cs
      pure (p :: ps, cs)
    else if c.toNat < 32 then none
    else do
      let (ps, cs) ← pieces? fuel cs
      pure (.char c :: ps, cs)

/-- A string behind its opening quote, if its pieces make one. -/
def string? (cs : List Char) : Option (Option String × List Char) :=
  (pieces? (cs.length + 1) cs).map fun (ps, r) => ((decode? ps).map String.ofList, r)

/-! ## Values -/

/-- The text behind `word`, if it starts with it. -/
def word? (word : String) (cs : List Char) : Option (List Char) :=
  if cs.take word.length = word.toList then some (cs.drop word.length) else none

/-- A string as JSON. -/
def ofString : Option String → RawJson
  | some s => .string s
  | none => .beyond

/-- An object as JSON, if each of its names is a string. -/
def ofMembers (members : List (Option String × RawJson)) : RawJson :=
  match members.mapM fun (name, j) => name.map fun name => Named.mk name j with
  | some members => .object members
  | none => .beyond

/-- An array or object where `depth` of them may still stand inside one another. -/
def atDepth (depth : Nat) (j : RawJson) : RawJson := if depth = 0 then .beyond else j

mutual

/-- A value, `depth` more arrays and objects being represented inside one another. -/
def value? (m : NumberReading) : (fuel depth : Nat) → List Char → Option (RawJson × List Char)
  | 0, _, _ => none
  | _ + 1, _, [] => none
  | fuel + 1, depth, c :: cs =>
    if c = '"' then (string? cs).map fun (s, r) => (ofString s, r)
    else if c = '[' then
      match skip cs with
      | ']' :: r => some (atDepth depth (.array []), r)
      | r => (items? m fuel (depth - 1) r).map fun (js, r) => (atDepth depth (.array js), r)
    else if c = '\x7b' then
      match skip cs with
      | '\x7d' :: r => some (atDepth depth (.object []), r)
      | r => (members? m fuel (depth - 1) r).map fun (ms, r) => (atDepth depth (ofMembers ms), r)
    else if c = 'n' then (word? "ull" cs).map fun r => (.null, r)
    else if c = 't' then (word? "rue" cs).map fun r => (.bool true, r)
    else if c = 'f' then (word? "alse" cs).map fun r => (.bool false, r)
    else number? m (c :: cs)

/-- The items of an array, up to its bracket. -/
def items? (m : NumberReading) : (fuel depth : Nat) → List Char → Option (List RawJson × List Char)
  | 0, _, _ => none
  | fuel + 1, depth, cs => do
    let (j, cs) ← value? m fuel depth cs
    match skip cs with
    | ',' :: r =>
      let (js, r) ← items? m fuel depth (skip r)
      pure (j :: js, r)
    | ']' :: r => pure ([j], r)
    | _ => none

/-- The members of an object, up to its brace. -/
def members? (m : NumberReading) :
    (fuel depth : Nat) → List Char → Option (List (Option String × RawJson) × List Char)
  | 0, _, _ => none
  | fuel + 1, depth, cs => do
    let '"' :: cs := cs | none
    let (name, cs) ← string? cs
    let ':' :: cs := skip cs | none
    let (j, cs) ← value? m fuel depth (skip cs)
    match skip cs with
    | ',' :: r =>
      let (ms, r) ← members? m fuel depth (skip r)
      pure ((name, j) :: ms, r)
    | '\x7d' :: r => pure ([(name, j)], r)
    | _ => none

end

/-- How many arrays and objects may stand inside one another. -/
def depthLimit : Nat := 127

end JsonReader

namespace RawJson

/-- The raw JSON of a text. A character is taken at least at every second step. -/
def readBy? (m : NumberReading) (s : String) : Option RawJson := do
  let cs := s.toList
  let (j, rest) ←
    JsonReader.value? m (2 * cs.length + 2) JsonReader.depthLimit (JsonReader.skip cs)
  if (JsonReader.skip rest).isEmpty then pure j else none

/-- The raw JSON of a text, every double being the nearest one. -/
def read? (s : String) : Option RawJson := readBy? .nearest s

end RawJson

namespace Json

/-- The value of a text in which fewer than `levels` texts are embedded in one another. -/
def parseWithin? (m : NumberReading) : (levels : Nat) → String → Option Json
  | 0, _ => none
  | levels + 1, s => (RawJson.readBy? m s).bind (RawJson.toJson? (parseWithin? m levels))

/-- The value of a text. An embedded text is shorter than the one around it, so there are enough
levels. -/
def parseBy? (m : NumberReading) (s : String) : Option Json := parseWithin? m (s.length + 1) s

/-- The value of a text, every double being the nearest one. -/
def parse? (s : String) : Option Json := parseBy? .nearest s

end Json

end PortableQuery
