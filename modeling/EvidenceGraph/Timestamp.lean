/-
# `EvidenceGraph.Timestamp` — instants in written form.

An instant is written in UTC with milliseconds, as in `2024-01-01T00:00:00.000Z`.
-/

namespace EvidenceGraph.Timestamp

/-- A number with leading zeros up to the given width. -/
def padded (width n : Nat) : List Char :=
  let digits := Nat.toDigits 10 n
  List.replicate (width - digits.length) '0' ++ digits

/-- A day of the calendar. -/
structure Date where
  year : Nat
  month : Nat
  day : Nat
deriving DecidableEq, Repr

/-- The date of a day counted from 1970-01-01. Years are taken from March on, so that the leap day is
the last of its year, in cycles of 146097 days or four hundred years. -/
def Date.ofDays (days : Nat) : Date :=
  -- days since the first of March of the year zero
  let shifted := days + 719468
  let cycle := shifted / 146097
  let dayOfCycle := shifted % 146097
  let yearOfCycle := (dayOfCycle - dayOfCycle / 1460 + dayOfCycle / 36524 - dayOfCycle / 146096) / 365
  let dayOfYear := dayOfCycle - (365 * yearOfCycle + yearOfCycle / 4 - yearOfCycle / 100)
  let monthFromMarch := (5 * dayOfYear + 2) / 153
  let day := dayOfYear - (153 * monthFromMarch + 2) / 5 + 1
  let month := if monthFromMarch < 10 then monthFromMarch + 3 else monthFromMarch - 9
  ⟨yearOfCycle + 400 * cycle + (if month ≤ 2 then 1 else 0), month, day⟩

/-- The written form of an instant, in milliseconds from the start of 1970. -/
def ofUnixMillis (millis : Nat) : String :=
  let seconds := millis / 1000
  let date := Date.ofDays (seconds / 86400)
  let second := seconds % 86400
  String.ofList (padded 4 date.year ++ '-' :: padded 2 date.month ++ '-' :: padded 2 date.day
    ++ 'T' :: padded 2 (second / 3600) ++ ':' :: padded 2 (second / 60 % 60) ++ ':' :: padded 2 (second % 60)
    ++ '.' :: padded 3 (millis % 1000) ++ ['Z'])

end EvidenceGraph.Timestamp
