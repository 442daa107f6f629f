set_option autoImplicit false

/-!
# Calendar time

Seconds since 1970-01-01T00:00:00 UTC as dates of the proleptic Gregorian calendar, and back.
Years run from -262143 to 262142.
-/

namespace Recast.Calendar

structure Date where
  year : Int
  month : Int
  day : Int
deriving Repr, DecidableEq

structure DateTime where
  date : Date
  hour : Int
  minute : Int
  second : Int
deriving Repr, DecidableEq

def isLeap (year : Int) : Bool :=
  year % 4 == 0 && (year % 100 != 0 || year % 400 == 0)

def monthLength (year month : Int) : Int :=
  if month = 2 then (if isLeap year then 29 else 28)
  else if month = 4 || month = 6 || month = 9 || month = 11 then 30
  else 31

/-- Days from 1970-01-01 to a date. Years are counted from March, so that a leap day is a last
day. -/
def Date.toDays (date : Date) : Int :=
  let year := if date.month ≤ 2 then date.year - 1 else date.year
  let month := if date.month ≤ 2 then date.month + 9 else date.month - 3
  year * 365 + year / 4 - year / 100 + year / 400 + (153 * month + 2) / 5 + date.day - 1 - 719468

def Date.ofDays (days : Int) : Date :=
  let shifted := days + 719468
  let era := shifted / 146097
  let inEra := shifted % 146097
  let yearInEra := (inEra - inEra / 1460 + inEra / 36524 - inEra / 146096) / 365
  let inYear := inEra - (365 * yearInEra + yearInEra / 4 - yearInEra / 100)
  let marchMonth := (5 * inYear + 2) / 153
  let day := inYear - (153 * marchMonth + 2) / 5 + 1
  let month := if marchMonth < 10 then marchMonth + 3 else marchMonth - 9
  let year := yearInEra + era * 400
  ⟨if month ≤ 2 then year + 1 else year, month, day⟩

def DateTime.toSeconds (time : DateTime) : Int :=
  time.date.toDays * 86400 + time.hour * 3600 + time.minute * 60 + time.second

def DateTime.ofSeconds (seconds : Int) : DateTime :=
  let inDay := seconds % 86400
  ⟨Date.ofDays (seconds / 86400), inDay / 3600, inDay % 3600 / 60, inDay % 60⟩

def firstSecond : Int := -8334601228800

def lastSecond : Int := 8210266876799

def isInRange (seconds : Int) : Bool :=
  firstSecond ≤ seconds && seconds ≤ lastSecond

def weekday (days : Int) : Int :=
  (days + 3) % 7

def Date.ordinal (date : Date) : Int :=
  date.toDays - (Date.mk date.year 1 1).toDays + 1

/-- The week of the year when weeks begin `offset` days after Monday; days before the first such
day are in week zero. -/
def Date.weekFrom (date : Date) (offset : Int) : Int :=
  (date.ordinal - (weekday date.toDays - offset) % 7 + 6) / 7

def Date.isoWeek (date : Date) : Int × Int :=
  let days := date.toDays
  let thursday := Date.ofDays (days - weekday days + 3)
  (thursday.year, (thursday.ordinal - 1) / 7 + 1)

end Recast.Calendar
