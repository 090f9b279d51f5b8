import T3x.Js.Date
import T3x.Js.Integers

/-!
# Parsing dates

The format of dates of the language, with all its parts and in UTC, is read back
as the point in time that it was written for. What other formats a parser knows
is a parameter.
-/

namespace Js

/-! ## Days -/

/-- The number of a day, that of the first of January 1970 being 0. -/
def dayNumber (year : ℤ) (month day : ℕ) : ℤ :=
  let marchYear := if month ≤ 2 then year - 1 else year
  let marchMonth := if month ≤ 2 then month + 9 else month - 3
  let yearOfEra := (marchYear % 400).toNat
  let dayOfYear := (153 * marchMonth + 2) / 5 + day - 1
  marchYear / 400 * 146097 + (365 * yearOfEra + yearOfEra / 4 - yearOfEra / 100 + dayOfYear : ℕ) -
    719468

/-- The century of an era, the group of four years, the year in it and the day of the year. -/
structure EraDay where
  /-- The century. -/
  century : ℕ
  /-- The group of four years. -/
  group : ℕ
  /-- The year in the group. -/
  year : ℕ
  /-- The day of the year. -/
  day : ℕ
  /-- The parts are in range. -/
  bounds : century < 4 ∧ group < 25 ∧ year < 4 ∧ day < 366
  /-- The last year of a group has one day more. -/
  leap : day = 365 → year = 3
  /-- So has the last century. -/
  last : 1461 * group + 365 * year + day < 36524 ∨ century = 3

/-- The number of the day in its era. -/
def EraDay.number (parts : EraDay) : ℕ :=
  36524 * parts.century + 1461 * parts.group + 365 * parts.year + parts.day

/-- Every day of an era has its parts. -/
theorem exists_eraDay {dayOfEra : ℕ} (h : dayOfEra < 146097) :
    ∃ parts : EraDay, parts.number = dayOfEra := by
  have hcentury : min (dayOfEra / 36524) 3 ≤ 3 := min_le_right _ _
  generalize hc : min (dayOfEra / 36524) 3 = century at hcentury
  generalize hr : dayOfEra - 36524 * century = rest
  have hyear : min (rest % 1461 / 365) 3 ≤ 3 := min_le_right _ _
  generalize hy : min (rest % 1461 / 365) 3 = year at hyear
  refine ⟨⟨century, rest / 1461, year, rest % 1461 - 365 * year,
    ⟨by omega, by omega, by omega, by omega⟩, by omega, by omega⟩, ?_⟩
  unfold EraDay.number
  dsimp only
  omega

/-- The year of the era is found from the number of the day. -/
theorem EraDay.year_eq (parts : EraDay) :
    (parts.number - parts.number / 1460 + parts.number / 36524 - parts.number / 146096) / 365 =
      100 * parts.century + 4 * parts.group + parts.year := by
  obtain ⟨century, group, year, day, ⟨hcentury, hgroup, hyear, hday⟩, hleap, hlast⟩ := parts
  unfold EraDay.number
  dsimp only
  generalize hn : 36524 * century + 1461 * group + 365 * year + day = n
  have hquads : n / 1460 = 25 * century + group +
      if 1460 ≤ 24 * century + group + 365 * year + day then 1 else 0 := by
    split_ifs <;> omega
  by_cases hshort : 1461 * group + 365 * year + day < 36524
  · have hcenturies : n / 36524 = century := by omega
    have heras : n / 146096 = 0 := by omega
    rw [hquads, hcenturies, heras]
    split_ifs <;> omega
  · have hera : n = 146096 := by omega
    obtain ⟨rfl, rfl, rfl⟩ : century = 3 ∧ group = 24 ∧ year = 3 := by omega
    rw [hera]

/-- The days of an era before a year of it. -/
theorem EraDay.day_eq (parts : EraDay) :
    parts.number = 365 * (100 * parts.century + 4 * parts.group + parts.year) +
      (100 * parts.century + 4 * parts.group + parts.year) / 4 -
      (100 * parts.century + 4 * parts.group + parts.year) / 100 + parts.day := by
  obtain ⟨century, group, year, day, ⟨hcentury, hgroup, hyear, hday⟩, hleap, hlast⟩ := parts
  unfold EraDay.number
  dsimp only
  omega

/-- The month and the day of a year that begins in March. -/
theorem marchMonth_bounds {dayOfYear : ℕ} (h : dayOfYear < 366) :
    (5 * dayOfYear + 2) / 153 < 12 ∧ (153 * ((5 * dayOfYear + 2) / 153) + 2) / 5 ≤ dayOfYear ∧
      dayOfYear - (153 * ((5 * dayOfYear + 2) / 153) + 2) / 5 < 31 := by
  omega

/-- The parts of the date of a day: its number is that of the day. -/
theorem dayNumber_civilDate (day : ℤ) :
    dayNumber (civilDate day).1 (civilDate day).2.1 (civilDate day).2.2 = day ∧
      1 ≤ (civilDate day).2.1 ∧ (civilDate day).2.1 ≤ 12 ∧
      1 ≤ (civilDate day).2.2 ∧ (civilDate day).2.2 ≤ 31 := by
  have hera : ((day + 719468) % 146097).toNat < 146097 := by omega
  obtain ⟨parts, hparts⟩ := exists_eraDay hera
  have hyear := parts.year_eq
  have hday := parts.day_eq
  obtain ⟨hmonth, hlow, hhigh⟩ := marchMonth_bounds parts.bounds.2.2.2
  have hbound := parts.bounds
  rw [hparts] at hyear hday
  generalize hyoe : 100 * parts.century + 4 * parts.group + parts.year = yearOfEra at hyear hday
  have hlt : yearOfEra < 400 := by omega
  have hdoy : ((day + 719468) % 146097).toNat -
      (365 * yearOfEra + yearOfEra / 4 - yearOfEra / 100) = parts.day := by omega
  have hsplit : day = (day + 719468) / 146097 * 146097 +
      (((day + 719468) % 146097).toNat : ℤ) - 719468 := by omega
  unfold civilDate dayNumber
  dsimp only
  simp only [hyear, hdoy]
  generalize hmm : (5 * parts.day + 2) / 153 = marchMonth at hmonth hlow hhigh
  generalize (day + 719468) / 146097 = era at hsplit
  have hera' : ((yearOfEra : ℤ) + era * 400) / 400 = era := by omega
  have hyoe' : (((yearOfEra : ℤ) + era * 400) % 400).toNat = yearOfEra := by omega
  by_cases hspring : marchMonth < 10
  · have hlate : ¬ marchMonth + 3 ≤ 2 := by omega
    simp only [if_pos hspring, if_neg hlate, hera', hyoe', Nat.add_sub_cancel]
    refine ⟨?_, by omega, by omega, by omega, by omega⟩
    rw [hsplit]
    omega
  · have hearly : marchMonth - 9 ≤ 2 := by omega
    have hback : (yearOfEra : ℤ) + era * 400 + 1 - 1 = yearOfEra + era * 400 := by omega
    have hmarch : marchMonth - 9 + 9 = marchMonth := by omega
    simp only [if_neg hspring, if_pos hearly, hback, hera', hyoe', hmarch]
    refine ⟨?_, by omega, by omega, by omega, by omega⟩
    rw [hsplit]
    omega

/-! ## Texts -/

/-- A number of a width at the front of a text, and the text behind it. -/
def readDigits (width : ℕ) (s : JsString) : Option (ℕ × JsString) :=
  if width ≤ s.length ∧ (s.take width).all isDigit = true then
    some (digitsValue (s.take width), s.drop width)
  else none

/-- The text behind a mark at the front of a text. -/
def readMark (mark : UInt16) : JsString → Option JsString
  | [] => none
  | u :: s => if u = mark then some s else none

/-- A year at the front of a text, and the text behind it: four digits, or a sign and six. -/
def readYear : JsString → Option (ℤ × JsString)
  | [] => none
  | u :: s =>
    if u = unit '+' then (readDigits 6 s).map fun r => ((r.1 : ℤ), r.2)
    else if u = unit '-' then
      (readDigits 6 s).bind fun r => if r.1 = 0 then none else some (-(r.1 : ℤ), r.2)
    else (readDigits 4 (u :: s)).map fun r => ((r.1 : ℤ), r.2)

/-- The point in time that a text of the format `YYYY-MM-DDTHH:mm:ss.sssZ` denotes. -/
def readInstant (s : JsString) : Option ℤ := do
  let (year, s) ← readYear s
  let s ← readMark (unit '-') s
  let (month, s) ← readDigits 2 s
  let s ← readMark (unit '-') s
  let (day, s) ← readDigits 2 s
  let s ← readMark (unit 'T') s
  let (hour, s) ← readDigits 2 s
  let s ← readMark (unit ':') s
  let (minute, s) ← readDigits 2 s
  let s ← readMark (unit ':') s
  let (second, s) ← readDigits 2 s
  let s ← readMark (unit '.') s
  let (millisecond, s) ← readDigits 3 s
  let s ← readMark (unit 'Z') s
  if s = [] ∧ (1 ≤ month ∧ month ≤ 12) ∧ (1 ≤ day ∧ day ≤ 31) ∧ hour < 24 ∧ minute < 60 ∧
      second < 60 then
    some (dayNumber year month day * 86400000 +
      (hour * 3600000 + minute * 60000 + second * 1000 + millisecond : ℕ))
  else none

/-- Whether a point in time is one of the language. -/
def inRange (milliseconds : ℤ) : Prop :=
  -8640000000000000 ≤ milliseconds ∧ milliseconds ≤ 8640000000000000

instance (milliseconds : ℤ) : Decidable (inRange milliseconds) := by unfold inRange; infer_instance

/-- `new Date(s).getTime()`, without a value where it is not a number. Other formats are read by
`readOther`. -/
def dateParse (readOther : JsString → Option ℤ) (s : JsString) : Option ℤ :=
  let found := match readInstant s with
    | some milliseconds => some milliseconds
    | none => readOther s
  found.filter fun milliseconds => decide (inRange milliseconds)

/-- What follows a value that is there. -/
theorem some_bind {T U : Type} (x : T) (f : T → Option U) : (some x >>= f) = f x := rfl

/-- A mark is read. -/
theorem readMark_cons (mark : UInt16) (s : JsString) : readMark mark (mark :: s) = some s := by
  simp [readMark]

/-- Zeros in front do not change a number. -/
theorem digitsValue_replicate_append (n : ℕ) (s : JsString) :
    digitsValue (List.replicate n (unit '0') ++ s) = digitsValue s := by
  unfold digitsValue
  rw [List.foldl_append]
  congr 1
  induction n with
  | zero => rfl
  | succ n ih =>
    rw [List.replicate_succ, List.foldl_cons]
    exact ih

/-- A number that is written to a width is read back. -/
theorem readDigits_padded {width n : ℕ} (hwidth : 0 < width) (hn : n < 10 ^ width)
    (rest : JsString) : readDigits width (padded width n ++ rest) = some (n, rest) := by
  have hlength : (natToString n).length ≤ width := by
    by_cases hzero : n = 0
    · subst hzero
      exact hwidth
    · have hpow := pow_length_le hzero
      by_contra hlong
      have hle : 10 ^ width ≤ 10 ^ ((natToString n).length - 1) :=
        Nat.pow_le_pow_right (by omega) (by omega)
      omega
  have hpadded : (padded width n).length = width := by
    unfold padded
    rw [List.length_append, List.length_replicate]
    omega
  have hdigits : (padded width n).all isDigit = true := by
    refine List.all_eq_true.mpr fun u hu => ?_
    rcases List.mem_append.mp hu with hzero | htext
    · rw [List.eq_of_mem_replicate hzero]
      decide
    · exact isDigit_of_mem_natToString htext
  have htake : (padded width n ++ rest).take width = padded width n := List.take_left' hpadded
  have hdrop : (padded width n ++ rest).drop width = rest := List.drop_left' hpadded
  unfold readDigits
  rw [htake, hdrop, if_pos ⟨by rw [List.length_append]; omega, hdigits⟩]
  unfold padded
  rw [digitsValue_replicate_append, digitsValue_natToString]

/-- A number that is written to a width begins with a digit. -/
theorem digit_of_padded (width n : ℕ) (rest : JsString) :
    (padded width n ++ rest).head? ≠ none ∧
      ∀ u ∈ (padded width n ++ rest).head?, isDigit u = true := by
  have hdigits : ∀ u ∈ padded width n, isDigit u = true := by
    intro u hu
    rcases List.mem_append.mp hu with hzero | htext
    · rw [List.eq_of_mem_replicate hzero]
      decide
    · exact isDigit_of_mem_natToString htext
  cases hpadded : padded width n with
  | nil =>
    have hnil := (List.append_eq_nil_iff.mp hpadded).2
    exact absurd hnil (decimalDigits_ne_nil n n)
  | cons u s =>
    rw [hpadded] at hdigits
    refine ⟨by simp, fun v hv => ?_⟩
    obtain rfl := Option.some.inj hv
    exact hdigits _ List.mem_cons_self

/-- A written year is read back. -/
theorem readYear_yearText {year : ℤ} (hyear : -1000000 < year ∧ year < 1000000) (rest : JsString) :
    readYear (yearText year ++ rest) = some (year, rest) := by
  unfold yearText
  by_cases hfour : 0 ≤ year ∧ year ≤ 9999
  · rw [if_pos hfour]
    have hread := readDigits_padded (by omega : 0 < 4) (show year.toNat < 10 ^ 4 by omega) rest
    have hdigit := digit_of_padded 4 year.toNat rest
    cases htext : padded 4 year.toNat ++ rest with
    | nil => exact absurd (congrArg List.head? htext) hdigit.1
    | cons u s =>
      rw [htext] at hread hdigit
      have hplus : u ≠ unit '+' := by
        rintro rfl
        exact absurd (hdigit.2 _ rfl) (by decide)
      have hminus : u ≠ unit '-' := by
        rintro rfl
        exact absurd (hdigit.2 _ rfl) (by decide)
      rw [readYear, if_neg hplus, if_neg hminus, hread, Option.map_some, Int.toNat_of_nonneg hfour.1]
  · rw [if_neg hfour]
    have hread := readDigits_padded (by omega : 0 < 6) (show year.natAbs < 10 ^ 6 by omega) rest
    by_cases hneg : year < 0
    · have hne : year.natAbs ≠ 0 := by omega
      have hvalue : -(year.natAbs : ℤ) = year := by omega
      rw [if_pos hneg]
      change readYear (unit '-' :: (padded 6 year.natAbs ++ rest)) = _
      rw [readYear, if_neg (by decide), if_pos rfl, hread, Option.bind_some, if_neg hne, hvalue]
    · have hvalue : (year.natAbs : ℤ) = year := by omega
      rw [if_neg hneg]
      change readYear (unit '+' :: (padded 6 year.natAbs ++ rest)) = _
      rw [readYear, if_pos rfl, hread, Option.map_some, hvalue]

/-- The year of a point in time of the language has six digits. -/
theorem civilDate_year_bounds {day : ℤ} (hday : -100000000 ≤ day ∧ day ≤ 100000000) :
    -1000000 < (civilDate day).1 ∧ (civilDate day).1 < 1000000 := by
  obtain ⟨hnumber, hmonth⟩ := dayNumber_civilDate day
  unfold dayNumber at hnumber
  dsimp only at hnumber
  generalize (civilDate day).1 = year at *
  generalize (civilDate day).2.1 = month at *
  generalize (civilDate day).2.2 = date at *
  split_ifs at hnumber <;> omega

/-- A point in time of the language is read back from its text. -/
theorem dateParse_toISOString (readOther : JsString → Option ℤ) {milliseconds : ℤ}
    (h : inRange milliseconds) : dateParse readOther (toISOString milliseconds) = some milliseconds := by
  have hday : -100000000 ≤ milliseconds / 86400000 ∧ milliseconds / 86400000 ≤ 100000000 := by
    unfold inRange at h
    omega
  obtain ⟨hnumber, hmonth₁, hmonth₂, hdate₁, hdate₂⟩ :=
    dayNumber_civilDate (milliseconds / 86400000)
  have hyear := civilDate_year_bounds hday
  have htime : (milliseconds % 86400000).toNat < 86400000 := by omega
  have hvalue : milliseconds = milliseconds / 86400000 * 86400000 +
      ((milliseconds % 86400000).toNat : ℤ) := by omega
  have hread : readInstant (toISOString milliseconds) = some milliseconds := by
    unfold toISOString
    dsimp only
    generalize hdate : civilDate (milliseconds / 86400000) = date at *
    obtain ⟨year, month, day⟩ := date
    dsimp only at *
    generalize (milliseconds % 86400000).toNat = time at *
    have htwo {n : ℕ} (hn : n < 100) (rest : JsString) :
        readDigits 2 (padded 2 n ++ rest) = some (n, rest) :=
      readDigits_padded (by omega) hn rest
    have hthree {n : ℕ} (hn : n < 1000) (rest : JsString) :
        readDigits 3 (padded 3 n ++ rest) = some (n, rest) :=
      readDigits_padded (by omega) hn rest
    have hdash : js "-" = [unit '-'] := by decide
    have hcolon : js ":" = [unit ':'] := by decide
    have hhour : js "T" = [unit 'T'] := by decide
    have hdot : js "." = [unit '.'] := by decide
    have hzone : js "Z" = [unit 'Z'] := by decide
    simp only [List.append_assoc, hdash, hcolon, hhour, hdot, hzone, List.cons_append,
      List.nil_append]
    unfold readInstant
    rw [readYear_yearText hyear, some_bind]
    dsimp only
    rw [readMark_cons, some_bind, htwo (by omega), some_bind]
    dsimp only
    rw [readMark_cons, some_bind, htwo (by omega), some_bind]
    dsimp only
    rw [readMark_cons, some_bind, htwo (by omega), some_bind]
    dsimp only
    rw [readMark_cons, some_bind, htwo (by omega), some_bind]
    dsimp only
    rw [readMark_cons, some_bind, htwo (by omega), some_bind]
    dsimp only
    rw [readMark_cons, some_bind, hthree (by omega), some_bind]
    dsimp only
    rw [readMark_cons, some_bind]
    rw [if_pos ⟨rfl, ⟨hmonth₁, hmonth₂⟩, ⟨hdate₁, hdate₂⟩, by omega, by omega, by omega⟩, hnumber]
    congr 1
    omega
  unfold dateParse
  rw [hread]
  simp [h]

end Js
