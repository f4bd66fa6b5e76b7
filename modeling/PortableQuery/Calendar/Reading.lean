import PortableQuery.Calendar.Timestamp
import PortableQuery.Text.Printing

/-!
# Reading dates and timestamps

There are two grammars. The *relaxed* one takes numbers of one or two digits, years with a sign and
any number of digits, and white space around the parts; the *strict* one is RFC 3339 with every
digit in its place. A date of the form `YYYY-MM-DD` has a middle way of its own, numbers as in the
relaxed grammar and white space before numbers only.
-/

namespace PortableQuery.CalendarText

/-- Why a text is no date or timestamp. -/
inductive Error where
  | tooShort
  | invalid
  | outOfRange
  | trailing
deriving DecidableEq, Repr

/-- The wording of an error. -/
def Error.message : Error → String
  | .tooShort => "premature end of input"
  | .invalid => "input contains invalid characters"
  | .outOfRange => "input is out of range"
  | .trailing => "trailing input"

/-- An optional result, its absence being out of range. -/
def inRange {α : Type} : Option α → Except Error α
  | some a => .ok a
  | none => .error .outOfRange

/-! ## Characters and numbers -/

/-- A number of at least `least` and at most `most` digits. -/
def number (least most : Nat) (cs : List Char) : Except Error (Nat × List Char) :=
  let ds := (cs.take most).takeWhile Char.isDigit
  if cs.length < least then .error .tooShort
  else if ds.length < least then .error .invalid
  else .ok (Digits.value ds, cs.drop ds.length)

/-- The one character `c`. -/
def mark (c : Char) : List Char → Except Error (Unit × List Char)
  | [] => .error .tooShort
  | x :: cs => if x = c then .ok ((), cs) else .error .invalid

/-- The `T` between date and time, or a space in its place. -/
def separator : List Char → Except Error (Unit × List Char)
  | [] => .error .tooShort
  | x :: cs => if x = 'T' ∨ x = 't' ∨ x = ' ' then .ok ((), cs) else .error .invalid

/-- Two digits. A lone character that is longer than a byte is an invalid one, and not a text that
is too short. -/
def twoDigits : List Char → Except Error ((Nat × Nat) × List Char)
  | [] => .error .tooShort
  | [c] => if c.toNat < 128 then .error .tooShort else .error .invalid
  | c :: d :: cs =>
    if c.isDigit ∧ d.isDigit then .ok ((Digits.digit c, Digits.digit d), cs) else .error .invalid

/-- The fraction of a second behind its point: nanoseconds, digits after the ninth being dropped. -/
def nanoseconds (cs : List Char) : Except Error (Nat × List Char) := do
  let (n, rest) ← number 1 9 cs
  let used := cs.length - rest.length
  pure (n * 10 ^ (9 - used), rest.dropWhile Char.isDigit)

/-- An optional fraction of a second. -/
def fraction : List Char → Except Error (Nat × List Char)
  | '.' :: cs => nanoseconds cs
  | cs => .ok (0, cs)

/-- Nothing is left. -/
def done : List Char → Except Error Unit
  | [] => .ok ()
  | _ :: _ => .error .trailing

/-! ## Offsets -/

/-- The offset of a zone in seconds: `Z`, or a sign, hours, what `between` takes, and minutes. -/
def offset (between : List Char → Except Error (List Char)) (cs : List Char) :
    Except Error (Int × List Char) :=
  let signed (negative : Bool) (cs : List Char) : Except Error (Int × List Char) := do
    let ((h₁, h₂), cs) ← twoDigits cs
    let cs ← between cs
    let ((m₁, m₂), cs) ← twoDigits cs
    if 6 ≤ m₁ then throw .outOfRange
    let seconds : Int := (h₁ * 10 + h₂) * 3600 + (m₁ * 10 + m₂) * 60
    pure (if negative then -seconds else seconds, cs)
  match cs with
  | [] => .error .tooShort
  | 'Z' :: cs => .ok (0, cs)
  | 'z' :: cs => .ok (0, cs)
  | '+' :: cs => signed false cs
  | '-' :: cs => signed true cs
  | '−' :: cs => signed true cs
  | _ :: _ => .error .invalid

/-- An offset is less than a day. -/
def checkOffset (seconds : Int) : Except Error Int :=
  if seconds.natAbs < 86400 then .ok seconds else .error .outOfRange

/-- A time of day in seconds and nanoseconds; second 60 is a leap second. -/
def clock (hour minute second nano : Nat) : Except Error (Fin 86400 × Fin 2000000000) :=
  let (second, extra) := if second = 60 then (59, 1000000000) else (second, 0)
  if h : hour < 24 ∧ minute < 60 ∧ second < 60 ∧ nano < 1000000000 ∧ extra ≤ 1000000000 then
    .ok (⟨hour * 3600 + minute * 60 + second, by omega⟩, ⟨extra + nano, by omega⟩)
  else .error .outOfRange

/-! ## Dates -/

/-- A year: one to four digits, or a sign and any number of them. -/
def year (cs : List Char) : Except Error (Int × List Char) :=
  match Text.trimStart cs with
  | '-' :: r => do let (n, r) ← number 1 r.length r; pure (-(n : Int), r)
  | '+' :: r => do let (n, r) ← number 1 r.length r; pure ((n : Int), r)
  | r => do let (n, r) ← number 1 4 r; pure ((n : Int), r)

/-- A number of one or two digits between two bounds, white space before it. -/
def small (low high : Nat) (cs : List Char) : Except Error (Nat × List Char) := do
  let (n, cs) ← number 1 2 (Text.trimStart cs)
  if low ≤ n ∧ n ≤ high then pure (n, cs) else throw .outOfRange

/-- Year, month and day with dashes between them, `gap` being dropped before a dash. -/
def dateParts (gap : List Char → List Char) (cs : List Char) :
    Except Error ((Int × Nat × Nat) × List Char) := do
  let (y, cs) ← year cs
  let ((), cs) ← mark '-' (gap cs)
  let (m, cs) ← small 1 12 cs
  let ((), cs) ← mark '-' (gap cs)
  let (d, cs) ← small 1 31 cs
  pure ((y, m, d), cs)

/-- A date, with white space allowed before its numbers. -/
def date (s : String) : Except Error Date := do
  let ((y, m, d), rest) ← dateParts id s.toList
  done rest
  inRange (Date.of? y m d)

/-- A date, with white space allowed around its parts. -/
def relaxedDate (s : String) : Except Error Date := do
  let ((y, m, d), rest) ← dateParts Text.trimStart s.toList
  done (Text.trimStart rest)
  inRange (Date.of? y m d)

/-! ## Timestamps -/

/-- A number of exactly `n` digits. -/
def digits (n : Nat) (cs : List Char) : Except Error (Nat × List Char) :=
  let ds := cs.take n
  if ds.length = n ∧ ds.all Char.isDigit then .ok (Digits.value ds, cs.drop n) else .error .invalid

/-- The one character `c` in a place that the text is long enough to have. -/
def fixedMark (c : Char) : List Char → Except Error (Unit × List Char)
  | x :: cs => if x = c then .ok ((), cs) else .error .invalid
  | [] => .error .invalid

/-- A timestamp of RFC 3339, converted to UTC. The date is looked up before the time is read, and an
offset of a day or more is an error only at the end of the text. -/
def timestamp (s : String) : Except Error Timestamp := do
  if s.utf8ByteSize < 19 then throw .tooShort
  let (y, cs) ← digits 4 s.toList
  let ((), cs) ← fixedMark '-' cs
  let (m, cs) ← digits 2 cs
  let ((), cs) ← fixedMark '-' cs
  let (d, cs) ← digits 2 cs
  let day ← inRange (Date.of? y m d)
  let ((), cs) ← separator cs
  let (hour, cs) ← digits 2 cs
  let ((), cs) ← fixedMark ':' cs
  let (minute, cs) ← digits 2 cs
  let ((), cs) ← fixedMark ':' cs
  let (second, cs) ← digits 2 cs
  let (nano, cs) ← fraction cs
  let (time, nano) ← clock hour minute second nano
  let (seconds, cs) ← offset (fun cs => do let ((), cs) ← mark ':' cs; pure cs) cs
  done cs
  let seconds ← checkOffset seconds
  inRange (Timestamp.ofLocal? day time nano seconds)

/-- The zone of a relaxed timestamp: `UTC` in any case, or an offset with any colons and white space
between hours and minutes. -/
def relaxedZone (cs : List Char) : Except Error (Int × List Char) :=
  if (cs.take 3).map Char.toUpper = ['U', 'T', 'C'] then .ok (0, cs.drop 3)
  else offset (fun cs => .ok (cs.dropWhile fun c => c = ':' || Text.isBlank c)) cs

/-- A timestamp in the relaxed grammar, converted to UTC. -/
def relaxedTimestamp (s : String) : Except Error Timestamp := do
  let ((y, m, d), cs) ← dateParts Text.trimStart s.toList
  let ((), cs) ← separator cs
  let (hour, cs) ← small 0 23 cs
  let ((), cs) ← mark ':' (Text.trimStart cs)
  let (minute, cs) ← small 0 59 cs
  let ((), cs) ← mark ':' (Text.trimStart cs)
  let (second, cs) ← small 0 60 cs
  let (nano, cs) ← fraction cs
  let (seconds, cs) ← relaxedZone (Text.trimStart cs)
  done (Text.trimStart cs)
  let day ← inRange (Date.of? y m d)
  let (time, nano) ← clock hour minute second nano
  let seconds ← checkOffset seconds
  inRange (Timestamp.ofLocal? day time nano seconds)

end PortableQuery.CalendarText
