import PortableQuery.Json.Reader
import PortableQuery.Proofs.Json.Plain
import PortableQuery.Proofs.Statement.Clause
import PortableQuery.Proofs.Statement.Meaning

set_option autoImplicit false

/-!
# Reading AQL

One loop over a collection or over documents by key, read back into its parts. Keywords are
recognised in either case, names are taken as they are, in backticks without their backslashes, and
strings are those of JSON.
-/

namespace PortableQuery.Aql

open Grammar

/-- The characters without the backslashes before others. -/
def unescaped : List Char → List Char
  | '\\' :: c :: cs => c :: unescaped cs
  | c :: cs => c :: unescaped cs
  | [] => []

/-- The quotes of names. -/
def nameQuote : Lexer.Quote where
  mark := '\x60'
  escapes := true
  token? cs := some (.name (String.ofList (unescaped cs)))

/-- The quotes of JSON strings. -/
def textQuote : Lexer.Quote where
  mark := '"'
  escapes := true
  token? cs :=
    match JsonReader.string? (cs ++ ['"']) with
    | some (some s, []) => some (.text s)
    | _ => none
  not_cuts_mark := Lexer.not_cuts_doubleQuote

/-- The quotes of the language. -/
def quotes : List Lexer.Quote := [nameQuote, textQuote]

/-! ## Predicates -/

/-- A name. -/
def name? : Reader String
  | .name s :: ts => some (s, ts)
  | .word s :: ts => some (s, ts)
  | _ => none

/-- An attribute of the document that the loop is at. -/
def attribute? : Reader String := fun ts => do
  let ts ← expect? (· == .word "d") ts
  let ts ← expect? (· == .sign ".") ts
  name? ts

/-- A named placeholder. -/
def placeholder? : Reader String
  | .parameter sigil s :: ts => if sigil = '@' ∧ s ≠ "" then some (s, ts) else none
  | _ => none

/-- What an attribute is compared with, behind its name. -/
def restriction? (field : String) : Reader (Comparison (Slot String))
  | [] => none
  | t :: ts =>
    if t.isWord "IN" then do
      let ts ← expect? (· == .sign "[") ts
      let (names, ts) ← separated? isComma placeholder? ts
      let ts ← expect? (· == .sign "]") ts
      pure (⟨.oneOf, field, .many names⟩, ts)
    else do
      let o ← comparison? "==" t
      let (name, ts) ← placeholder? ts
      pure (⟨o, field, .one name⟩, ts)

/-- A predicate. -/
def predicate? : Reader (Comparison (Slot String)) := fun ts => do
  let (field, ts) ← attribute? ts
  restriction? field ts

/-! ## Statements -/

/-- The parts of a statement, `V` being what stands for values. -/
structure Loop (V : Type) where
  collection : String
  /-- The list of the keys whose documents the loop is over. -/
  keys : Option V
  condition : Option (Formula (Comparison V))
  order : List SortKey
  skip : Nat
  /-- A limit of zero is none. -/
  limit : Nat
  /-- No attributes are all of them. -/
  keep : List String

/-- The same parts with other values. -/
def Loop.map {V W : Type} (f : V → W) (l : Loop V) : Loop W :=
  { l with
    keys := l.keys.map f
    condition := l.condition.map (·.map (Comparison.map f)) }

/-- What the loop runs over: the documents of a collection by their keys, or all of them. -/
def source? : Reader (String × Option (Slot String)) := fun ts =>
  match (expect? (Token.isWord "DOCUMENT") ts).bind (expect? (· == .sign "(")) with
  | some (.text collection :: ts) => do
    let ts ← expect? isComma ts
    let (keys, ts) ← placeholder? ts
    let ts ← expect? (· == .sign ")") ts
    pure ((collection, some (.one keys)), ts)
  | some _ => none
  | none => do
    let (collection, ts) ← name? ts
    pure ((collection, none), ts)

/-- A window: how many to skip, and how many there are at most. -/
def window? : Reader (Nat × Nat) := fun ts => do
  let (first, ts) ← count? ts
  match expect? isComma ts with
  | some ts => do
    let (second, ts) ← count? ts
    pure ((first, second), ts)
  | none => pure ((0, first), ts)

/-- A string. -/
def text? : Reader String
  | .text s :: ts => some (s, ts)
  | _ => none

/-- What the loop returns: the whole document or some of its attributes. -/
def return? : Reader (List String) := fun ts => do
  let ts ← expect? (Token.isWord "RETURN") ts
  match expect? (· == .word "d") ts with
  | some ts => pure ([], ts)
  | none => do
    let ts ← expect? (Token.isWord "KEEP") ts
    let ts ← expect? (· == .sign "(") ts
    let ts ← expect? (· == .word "d") ts
    let ts ← expect? isComma ts
    let (attributes, ts) ← separated? isComma text? ts
    let ts ← expect? (· == .sign ")") ts
    pure (attributes, ts)

/-- A statement. -/
def loop? : Reader (Loop (Slot String)) := fun ts => do
  let ts ← expect? (Token.isWord "FOR") ts
  let ts ← expect? (· == .word "d") ts
  let ts ← expect? (Token.isWord "IN") ts
  let ((collection, keys), ts) ← source? ts
  let (condition, ts) ← clause? "FILTER" (formula? predicate?) ts
  let (order, ts) ← clause? "SORT" (separated? isComma (sortKey? attribute?)) ts
  let (window, ts) ← clause? "LIMIT" window? ts
  let (keep, ts) ← return? ts
  let (skip, limit) := window.getD (0, 0)
  pure (⟨collection, keys, condition, order.getD [], skip, limit, keep⟩, ts)

/-- The statement of a text, which must end with it. -/
def parse? (text : String) : Option (Loop (Slot String)) := do
  let ts ← Lexer.tokens? quotes text
  let (l, ts) ← loop? ts
  if ts.isEmpty then some l else none

/-! ## What a query asks for -/

/-- The attribute of a field: `_key` holds the identity. -/
def attributeName (config : CompilerConfig) (name : String) : String :=
  if name = config.idField then "_key" else name

/-- A comparison of an attribute; a range is a conjunction of its two bounds. -/
def expand (config : CompilerConfig) : Comparison Value → Formula (Comparison Value)
  | ⟨.between, field, .list [lower, upper]⟩ =>
    .join .and [.atom ⟨.greaterOrEqual, attributeName config field, lower⟩,
      .atom ⟨.lessOrEqual, attributeName config field, upper⟩]
  | ⟨o, field, v⟩ => .atom ⟨o, attributeName config field, v⟩

/-- The parts that a query asks for, its condition being divided into keys and the rest. An offset
without a limit goes with the largest limit that the store counts exactly. -/
def Loop.ofQuery (config : CompilerConfig) (q : Query) (keys : Option Value)
    (rest : Option Condition) : Loop Value where
  collection := q.entity
  keys := keys
  condition := rest.map (·.formula.collapse.flatMap (expand config))
  order := q.sorts.map fun s => ⟨attributeName config s.field, s.direction⟩
  skip := q.skip.toNat
  limit := if q.skip ≠ 0 ∧ q.limit = 0 then 9007199254740991 else q.limit.toNat
  keep := q.projection.map (attributeName config)

/-! ## Placeholders -/

/-- Placeholders by name. -/
def placeholders : Placeholders String Json where
  style := .named '@'
  write name := "@" ++ name
  look ps name := (ps.find? (·.name == some name)).map (·.value)

/-- The language of filters. -/
def language : Language String Json where
  quotes := quotes
  atom := predicate?
  placeholders := placeholders
  null := .null
  list := .array

end PortableQuery.Aql
