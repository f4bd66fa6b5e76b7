import PortableQuery.Calendar.Date

/-!
# Timestamps

Moments in UTC, to the nanosecond. A leap second is the second before it with a nanosecond count of
a thousand million or more, and it may follow any second. Its text is second 60 if it ends a minute;
inside a minute it is written as the second that comes next, so that text stands for two moments.
-/

namespace PortableQuery

/-- A moment in UTC. -/
structure Timestamp where
  date : Date
  second : Fin 86400
  nano : Fin 2000000000
deriving DecidableEq, Repr

namespace Timestamp

/-- The moment at which a clock that is `offset` seconds ahead of UTC shows a date and a time of
day; none if it falls off the calendar. -/
def ofLocal? (date : Date) (second : Fin 86400) (nano : Fin 2000000000) (offset : Int) :
    Option Timestamp := do
  let total : Int := second.val - offset
  let date ←
    if total < 0 then date.previous?
    else if 86400 ≤ total then date.next?
    else some date
  pure ⟨date, ⟨(total % 86400).toNat, by omega⟩, nano⟩

/-- The fraction of the second: no digits, or three, six or nine, the fewest that are exact. -/
def fractionText (nano : Nat) : String :=
  if nano = 0 then ""
  else if nano % 1000000 = 0 then "." ++ Digits.padded 3 (nano / 1000000)
  else if nano % 1000 = 0 then "." ++ Digits.padded 6 (nano / 1000)
  else "." ++ Digits.padded 9 nano

/-- The time of day; a leap second is written as one second more, so after second 59 it is second
60. -/
def timeText (t : Timestamp) : String :=
  let leap := 1000000000 ≤ t.nano.val
  let second := t.second.val % 60 + if leap then 1 else 0
  let nano := if leap then t.nano.val - 1000000000 else t.nano.val
  Digits.padded 2 (t.second.val / 3600) ++ ":" ++ Digits.padded 2 (t.second.val / 60 % 60) ++ ":" ++
    Digits.padded 2 second ++ fractionText nano

/-- The moment in RFC 3339, the zone UTC written as `zone`. -/
def text (zone : String) (t : Timestamp) : String :=
  t.date.text ++ "T" ++ t.timeText ++ zone

end Timestamp

end PortableQuery
