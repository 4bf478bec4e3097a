import RulesEnrichment.Model.Basic

/-! # Reading ISO 8601 text

    `datetime.fromisoformat` of Python 3.12: any ISO 8601 date, with or
    without dashes, by month and day or by week and weekday, then any one
    character and a time of day with a UTC offset, both optional. Offsets
    may have fractional seconds; fractions of hours and minutes, dates of
    reduced precision and ordinal dates are not read. -/

namespace RulesEnrichment

namespace IsoFormat

/-! ## Digits -/

def digitsFrom (v : Nat) : Nat → List Char → Option (Nat × List Char)
  | 0, cs => some (v, cs)
  | _ + 1, [] => none
  | n + 1, c :: cs =>
    if c.isDigit then digitsFrom (v * 10 + (c.toNat - '0'.toNat)) n cs else none

/-- The number written by the first `n` characters, all digits, and what
    comes after them. -/
def parseDigits (n : Nat) (cs : List Char) : Option (Nat × List Char) := digitsFrom 0 n cs

/-- The text after a separator, where the format has one. -/
def skip (sep : Char) (present : Bool) (cs : List Char) : Option (List Char) :=
  if present then (if cs.head? = some sep then some cs.tail else none) else some cs

/-! ## Dates -/

/-- Year, month and day of a day given by its ordinal, in the ISO year
    `year` (which begins and ends within four days of the calendar year). -/
def ord2ymd (year n : Nat) : Nat × Nat × Nat :=
  let y :=
    if n ≤ daysBeforeYear year then year - 1
    else if daysBeforeYear (year + 1) < n then year + 1
    else year
  let dayOfYear := n - daysBeforeYear y
  let month := (List.range 12).countP fun m => daysBeforeMonth y (m + 1) < dayOfYear
  (y, month, dayOfYear - daysBeforeMonth y month)

/-- `_isoweek_to_gregorian` -/
def isoweekToGregorian (year week day : Nat) : Option (Nat × Nat × Nat) :=
  let first := daysBeforeYear year + 1
  -- years that start on a Thursday, and leap years that start on a Wednesday
  let weeks := if first % 7 = 4 ∨ (first % 7 = 3 ∧ isLeap year) then 53 else 52
  if 1 ≤ year ∧ 1 ≤ week ∧ week ≤ weeks ∧ 1 ≤ day ∧ day ≤ 7 then
    let firstWeekday := (first + 6) % 7
    let monday := if firstWeekday ≤ 3 then first - firstWeekday else first + 7 - firstWeekday
    some (ord2ymd year (monday + (week - 1) * 7 + (day - 1)))
  else none

/-- `YYYY-MM-DD`, `YYYYMMDD`, `YYYY-Www[-D]` or `YYYYWww[D]`. -/
def parseDate (cs : List Char) : Option (Nat × Nat × Nat) := do
  let (year, cs) ← parseDigits 4 cs
  let dashes := cs.head? = some '-'
  let cs ← skip '-' dashes cs
  if cs.head? = some 'W' then
    let (week, cs) ← parseDigits 2 cs.tail
    if cs = [] then isoweekToGregorian year week 1
    else
      let cs ← skip '-' dashes cs
      let (day, cs) ← parseDigits 1 cs
      if cs = [] then isoweekToGregorian year week day else none
  else
    let (month, cs) ← parseDigits 2 cs
    let cs ← skip '-' dashes cs
    let (day, cs) ← parseDigits 2 cs
    if cs = [] then some (year, month, day) else none

/-- How many characters the date has (`_find_isoformat_datetime_separator`):
    the character after it, whichever it is, separates it from the time. -/
def dateLength (cs : List Char) : Option Nat :=
  if cs.length < 7 then none
  else if cs.length = 7 then some 7
  else if cs[4]? = some '-' then
    if cs[5]? = some 'W' ∧ cs[8]? = some '-' then
      if cs.length = 9 then none
      -- YYYY-Www-HH rather than YYYY-Www-D followed by a digit
      else if cs[10]?.any Char.isDigit then some 8
      else some 10
    else if cs[5]? = some 'W' then some 8
    else some 10
  else if cs[4]? = some 'W' then
    -- the digits of a time come in pairs, so their number tells YYYYWww from YYYYWwwD
    let digitsEnd := 7 + ((cs.drop 7).takeWhile Char.isDigit).length
    if digitsEnd < 9 then some digitsEnd
    else if digitsEnd % 2 = 0 then some 7
    else some 8
  else some 8

/-! ## Times -/

/-- A time of day, or the size of a UTC offset. -/
structure Clock where
  hour : Nat
  minute : Nat := 0
  second : Nat := 0
  microsecond : Nat := 0
  deriving DecidableEq

def Clock.micros (t : Clock) : Nat :=
  ((t.hour * 60 + t.minute) * 60 + t.second) * 1000000 + t.microsecond

/-- The fraction of a second in microseconds; what is beyond six digits is
    cut off. -/
def parseFraction (cs : List Char) : Option Nat :=
  if cs ≠ [] ∧ cs.all Char.isDigit then
    (parseDigits 6 (cs ++ List.replicate 6 '0')).map Prod.fst
  else none

/-- `HH`, `HH:MM`, `HH:MM:SS` and `HH:MM:SS.f`, or the same without colons. -/
def parseClock (cs : List Char) : Option Clock := do
  let (hour, cs) ← parseDigits 2 cs
  let colons := cs.head? = some ':'
  if cs = [] then some ⟨hour, 0, 0, 0⟩
  else
    let cs ← skip ':' colons cs
    let (minute, cs) ← parseDigits 2 cs
    if cs = [] then some ⟨hour, minute, 0, 0⟩
    else
      let cs ← skip ':' colons cs
      let (second, cs) ← parseDigits 2 cs
      if cs = [] then some ⟨hour, minute, second, 0⟩
      else if cs.head? = some '.' ∨ cs.head? = some ',' then
        let microsecond ← parseFraction cs.tail
        some ⟨hour, minute, second, microsecond⟩
      else none

/-- A time of day, and the UTC offset in microseconds if there is one. -/
def parseTime (cs : List Char) : Option (Clock × Option Int) := do
  let (time, zone) := cs.span fun c => c ≠ '+' ∧ c ≠ '-' ∧ c ≠ 'Z'
  let time ← parseClock time
  match zone with
  | [] => some (time, none)
  | 'Z' :: cs => if cs = [] then some (time, some 0) else none
  | sign :: cs =>
    let offset ← parseClock cs
    some (time, some (if sign = '-' then -(offset.micros : Int) else offset.micros))

/-- The fields of an ISO text: date, time of day and UTC offset. -/
def parse (cs : List Char) : Option ((Nat × Nat × Nat) × Clock × Option Int) := do
  let n ← dateLength cs
  let date ← parseDate (cs.take n)
  match cs.drop n with
  | [] => some (date, ⟨0, 0, 0, 0⟩, none)
  | _ :: time =>
    let (time, offset) ← parseTime time
    some (date, time, offset)

/-! ## `datetime.fromisoformat` -/

def valueError (msg : String) : PyErr := ⟨.other "ValueError", msg⟩

/-- `repr` of a `timedelta` of a day or more. -/
def timedeltaRepr (us : Int) : String :=
  let days := us / dayMicros
  let rest := us % dayMicros
  "datetime.timedelta(days=" ++ toString days ++
    (if rest / 1000000 = 0 then "" else ", seconds=" ++ toString (rest / 1000000)) ++
    (if rest % 1000000 = 0 then "" else ", microseconds=" ++ toString (rest % 1000000)) ++ ")"

/-- The complaint about the first field that is out of range. -/
def rangeMessage (date : Nat × Nat × Nat) (time : Clock) (offset : Option Int) : String :=
  if dayMicros ≤ (offset.getD 0).natAbs then
    "offset must be a timedelta strictly between -timedelta(hours=24) and " ++
      "timedelta(hours=24), not " ++ timedeltaRepr (offset.getD 0) ++ "."
  else if date.1 < 1 ∨ 9999 < date.1 then "year " ++ toString date.1 ++ " is out of range"
  else if date.2.1 < 1 ∨ 12 < date.2.1 then "month must be in 1..12"
  else if date.2.2 < 1 ∨ daysInMonth date.1 date.2.1 < date.2.2 then
    "day is out of range for month"
  else if 24 ≤ time.hour then "hour must be in 0..23"
  else if 60 ≤ time.minute then "minute must be in 0..59"
  else "second must be in 0..59"

end IsoFormat

open IsoFormat

/-- `datetime.fromisoformat`; `reprStr` is Python's `repr` of a string. -/
def DateTime.fromisoformat (reprStr : String → String) (text : String) : Except PyErr DateTime :=
  match parse text.toList with
  | none => .error (valueError ("Invalid isoformat string: " ++ reprStr text))
  | some ((year, month, day), time, offset) =>
    if h : validDateTime year month day time.hour time.minute time.second time.microsecond
        offset = true then
      .ok ⟨year, month, day, time.hour, time.minute, time.second, time.microsecond, offset, h⟩
    else .error (valueError (rangeMessage (year, month, day) time offset))

end RulesEnrichment
