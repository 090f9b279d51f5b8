import T3x.Js.Str

/-!
# Dates

The text of a point in time, counted in milliseconds from the start of 1970.
-/

namespace Js

/-- The digits of a number, zeros before it up to the width. -/
def padded (width n : ℕ) : JsString :=
  List.replicate (width - (natToString n).length) (unit '0') ++ natToString n

/-- The year, month and day of the day with the number, the first of January 1970 being day 0. -/
def civilDate (day : ℤ) : ℤ × ℕ × ℕ :=
  let shifted := day + 719468
  let era := shifted / 146097
  let dayOfEra := (shifted % 146097).toNat
  let yearOfEra := (dayOfEra - dayOfEra / 1460 + dayOfEra / 36524 - dayOfEra / 146096) / 365
  let dayOfYear := dayOfEra - (365 * yearOfEra + yearOfEra / 4 - yearOfEra / 100)
  -- The year is counted from March here, so that a leap day is its last day.
  let marchMonth := (5 * dayOfYear + 2) / 153
  let month := if marchMonth < 10 then marchMonth + 3 else marchMonth - 9
  let year := (yearOfEra : ℤ) + era * 400
  (if month ≤ 2 then year + 1 else year, month, dayOfYear - (153 * marchMonth + 2) / 5 + 1)

/-- The text of a year: four digits, or a sign and six. -/
def yearText (year : ℤ) : JsString :=
  if 0 ≤ year ∧ year ≤ 9999 then padded 4 year.toNat
  else (if year < 0 then js "-" else js "+") ++ padded 6 year.natAbs

/-- `Date.prototype.toISOString`. -/
def toISOString (milliseconds : ℤ) : JsString :=
  let date := civilDate (milliseconds / 86400000)
  let time := (milliseconds % 86400000).toNat
  yearText date.1 ++ js "-" ++ padded 2 date.2.1 ++ js "-" ++ padded 2 date.2.2 ++ js "T" ++
    padded 2 (time / 3600000) ++ js ":" ++ padded 2 (time / 60000 % 60) ++ js ":" ++
    padded 2 (time / 1000 % 60) ++ js "." ++ padded 3 (time % 1000) ++ js "Z"

/-- A leap day. -/
example : toISOString 951782400000 = js "2000-02-29T00:00:00.000Z" := by decide

end Js
