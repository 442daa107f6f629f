import Mathlib
import Recast.Calendar.Date

set_option autoImplicit false

/-!
# Counting calendar time

The valid dates and times are told by the calendar alone: the lengths of the months, the rule of
the leap years, and which second comes next. Every number of seconds, also a negative one, is the
count of one valid time, and the time after it has the next number.
-/

namespace Recast.Calendar

/-! ### The lengths of the months -/

theorem isLeap_iff (year : Int) :
    isLeap year = true ↔ year % 4 = 0 ∧ (year % 100 ≠ 0 ∨ year % 400 = 0) := by
  simp [isLeap]

/-- February in the terms `Date.toDays` adds up for a year and for the one before. -/
theorem monthLength_february (year : Int) :
    monthLength year 2 = 28 + (year / 4 - (year - 1) / 4) - (year / 100 - (year - 1) / 100) +
      (year / 400 - (year - 1) / 400) := by
  have leap := isLeap_iff year
  rw [monthLength, if_pos rfl]
  split
  next isLeap =>
    have := leap.mp isLeap
    omega
  next noLeap =>
    have := mt leap.mpr noLeap
    omega

theorem monthLength_bounds (year month : Int) :
    28 ≤ monthLength year month ∧ monthLength year month ≤ 31 := by
  unfold monthLength
  split_ifs <;> omega

theorem monthLength_december (year : Int) : monthLength year 12 = 31 :=
  rfl

/-! ### Dates -/

structure Date.IsValid (date : Date) : Prop where
  month : 1 ≤ date.month ∧ date.month ≤ 12
  day : 1 ≤ date.day ∧ date.day ≤ monthLength date.year date.month

/-- The day after. -/
def Date.next (date : Date) : Date :=
  if date.day < monthLength date.year date.month then { date with day := date.day + 1 }
  else if date.month < 12 then ⟨date.year, date.month + 1, 1⟩
  else ⟨date.year + 1, 1, 1⟩

theorem Date.IsValid.next {date : Date} (valid : date.IsValid) : date.next.IsValid := by
  obtain ⟨⟨first, last⟩, start, stop⟩ := valid
  unfold Date.next
  split_ifs with within early
  · exact ⟨⟨first, last⟩, by dsimp only; omega⟩
  · have := monthLength_bounds date.year (date.month + 1)
    exact ⟨by dsimp only; omega, by dsimp only; omega⟩
  · have := monthLength_bounds (date.year + 1) 1
    exact ⟨by simp, by dsimp only; omega⟩

theorem toDays_nextMonth {month : Int} (first : 1 ≤ month) (last : month < 12) (year : Int) :
    (Date.mk year (month + 1) 1).toDays =
      (Date.mk year month (monthLength year month)).toDays + 1 := by
  have february := monthLength_february year
  interval_cases month
  case «2» =>
    rw [february]
    simp [Date.toDays]
    omega
  all_goals
    simp [Date.toDays, monthLength]
    omega

theorem toDays_nextYear (year : Int) :
    (Date.mk (year + 1) 1 1).toDays = (Date.mk year 12 31).toDays + 1 := by
  simp [Date.toDays]
  omega

theorem Date.IsValid.toDays_next {date : Date} (valid : date.IsValid) :
    date.next.toDays = date.toDays + 1 := by
  obtain ⟨year, month, day⟩ := date
  obtain ⟨⟨first, last⟩, _, stop⟩ := valid
  dsimp only at first last stop
  unfold Date.next
  dsimp only
  split_ifs with within early
  · simp only [Date.toDays]
    omega
  · obtain rfl : day = monthLength year month := by omega
    exact toDays_nextMonth first early year
  · obtain rfl : month = 12 := by omega
    obtain rfl : day = 31 := by
      rw [monthLength_december] at stop within
      omega
    exact toDays_nextYear year

/-- The day before a valid date. -/
theorem Date.IsValid.exists_before {date : Date} (valid : date.IsValid) :
    ∃ before : Date, before.IsValid ∧ before.next = date := by
  obtain ⟨year, month, day⟩ := date
  obtain ⟨⟨first, last⟩, start, stop⟩ := valid
  dsimp only at first last start stop
  by_cases newMonth : day = 1
  · subst newMonth
    by_cases newYear : month = 1
    · subst newYear
      refine ⟨⟨year - 1, 12, 31⟩, ⟨by simp, by simp [monthLength_december]⟩, ?_⟩
      simp [Date.next, monthLength_december]
    · have long := monthLength_bounds year (month - 1)
      refine ⟨⟨year, month - 1, monthLength year (month - 1)⟩,
        ⟨by dsimp only; omega, by dsimp only; omega⟩, ?_⟩
      have early : month - 1 < 12 := by omega
      simp [Date.next, early]
  · refine ⟨⟨year, month, day - 1⟩, ⟨⟨first, last⟩, by dsimp only; omega⟩, ?_⟩
    have within : day - 1 < monthLength year month := by omega
    simp [Date.next, within]

/-! ### From days back to dates

Four hundred years from the first of March are an era; in an era the days before a year and the
days before a month are sums of quotients, which `Date.ofDays` inverts. -/

/-- The year of a day in its era: the quotients take out the leap days before it. -/
theorem yearInEra_eq {year day : Int} (first : 0 ≤ year) (last : year ≤ 399) (start : 0 ≤ day)
    (stop : day ≤ 365) (full : day = 365 → year % 4 = 3 ∧ (year % 100 ≠ 99 ∨ year = 399)) :
    let inEra := 365 * year + year / 4 - year / 100 + day
    (0 ≤ inEra ∧ inEra < 146097) ∧
      (inEra - inEra / 1460 + inEra / 36524 - inEra / 146096) / 365 = year := by
  intro inEra
  obtain ⟨century, four, single, written, bounds⟩ : ∃ century four single : Int,
      year = 100 * century + 4 * four + single ∧ 0 ≤ century ∧ century ≤ 3 ∧ 0 ≤ four ∧
        four ≤ 24 ∧ 0 ≤ single ∧ single ≤ 3 :=
    ⟨year / 100, year % 100 / 4, year % 4, by omega, by omega⟩
  have counted : inEra = 36524 * century + 1461 * four + 365 * single + day := by omega
  clear_value inEra
  by_cases leap : day = 365
  · have fours : inEra / 1460 = 25 * century + four + 1 := by omega
    by_cases final : year = 399
    · omega
    · have early : 1461 * four + 365 * single + day < 36524 := by omega
      have centuries : inEra / 36524 = century := by omega
      have era : inEra / 146096 = 0 := by omega
      omega
  · have centuries : inEra / 36524 = century := by omega
    have era : inEra / 146096 = 0 := by omega
    -- Late in the fourth year of a four the quotient by 1460 already counts its leap day.
    by_cases late : single = 3 ∧ 365 ≤ 24 * century + four + day
    · have fours : inEra / 1460 = 25 * century + four + 1 := by omega
      omega
    · have fours : inEra / 1460 = 25 * century + four := by omega
      omega

/-- A day of a year that begins with March, the month with number zero: there is a 366th day only
if the next year is a leap year. -/
structure IsMarchDay (year month day : Int) : Prop where
  months : 0 ≤ month ∧ month ≤ 11
  days : 1 ≤ day ∧ (153 * month + 2) / 5 + day ≤ (153 * (month + 1) + 2) / 5
  leap : (153 * month + 2) / 5 + day ≤ 365 ∨
    month = 11 ∧ day = 29 ∧ year % 4 = 3 ∧ (year % 100 ≠ 99 ∨ year % 400 = 399)

theorem IsMarchDay.month_eq {year month day : Int} (isDay : IsMarchDay year month day) :
    (5 * ((153 * month + 2) / 5 + day - 1) + 2) / 153 = month := by
  obtain ⟨⟨first, last⟩, ⟨start, stop⟩, _⟩ := isDay
  interval_cases month <;> omega

theorem IsMarchDay.ofDays_eq {era year month day : Int} (first : 0 ≤ year) (last : year ≤ 399)
    (isDay : IsMarchDay year month day) :
    Date.ofDays (146097 * era + (365 * year + year / 4 - year / 100 +
        ((153 * month + 2) / 5 + day - 1)) - 719468) =
      ⟨if month < 10 then 400 * era + year else 400 * era + year + 1,
        if month < 10 then month + 3 else month - 9, day⟩ := by
  have inMonth := isDay.month_eq
  obtain ⟨⟨low, high⟩, ⟨start, stop⟩, leap⟩ := isDay
  obtain ⟨⟨least, largest⟩, inYear⟩ :=
    @yearInEra_eq year ((153 * month + 2) / 5 + day - 1) first last (by omega) (by omega)
      (by omega)
  generalize counted : 365 * year + year / 4 - year / 100 + ((153 * month + 2) / 5 + day - 1) =
    inEra at *
  have shift : 146097 * era + inEra - 719468 + 719468 = 146097 * era + inEra := by omega
  have eras : (146097 * era + inEra) / 146097 = era := by omega
  have rest : (146097 * era + inEra) % 146097 = inEra := by omega
  have left : inEra - (365 * year + year / 4 - year / 100) = (153 * month + 2) / 5 + day - 1 := by
    omega
  simp only [Date.ofDays, shift, eras, rest, inYear, left, inMonth]
  by_cases early : month < 10
  · rw [if_pos early, if_pos early, if_neg (by omega)]
    congr 1 <;> omega
  · rw [if_neg early, if_neg early, if_pos (by omega)]
    congr 1 <;> omega

theorem Date.IsValid.isMarchDay {date : Date} (valid : date.IsValid) :
    IsMarchDay (if date.month ≤ 2 then date.year - 1 else date.year)
      (if date.month ≤ 2 then date.month + 9 else date.month - 3) date.day := by
  obtain ⟨year, month, day⟩ := date
  obtain ⟨⟨first, last⟩, start, stop⟩ := valid
  dsimp only at first last start stop ⊢
  have february := monthLength_february year
  interval_cases month
  case «2» =>
    rw [february] at stop
    exact ⟨by omega, by omega, by omega⟩
  all_goals
    simp [monthLength] at stop
    exact ⟨by omega, by omega, by omega⟩

theorem Date.IsValid.ofDays_toDays {date : Date} (valid : date.IsValid) :
    ofDays date.toDays = date := by
  have isDay := valid.isMarchDay
  obtain ⟨year, month, day⟩ := date
  obtain ⟨⟨first, last⟩, _⟩ := valid
  dsimp only at isDay first last
  generalize marchYear : (if month ≤ 2 then year - 1 else year) = shifted at isDay
  generalize marchMonth : (if month ≤ 2 then month + 9 else month - 3) = number at isDay
  have inEra : IsMarchDay (shifted % 400) number day := by
    obtain ⟨low, high, leap⟩ := isDay
    exact ⟨low, high, by omega⟩
  have days : (Date.mk year month day).toDays = 146097 * (shifted / 400) +
      (365 * (shifted % 400) + shifted % 400 / 4 - shifted % 400 / 100 +
        ((153 * number + 2) / 5 + day - 1)) - 719468 := by
    simp only [toDays, marchYear, marchMonth]
    omega
  rw [days, inEra.ofDays_eq (by omega) (by omega)]
  congr 1 <;> omega

/-- Every number of days is that of a valid date, by steps forward and back from the epoch. -/
theorem exists_toDays_eq (days : Int) : ∃ date : Date, date.IsValid ∧ date.toDays = days := by
  induction days with
  | zero => exact ⟨⟨1970, 1, 1⟩, ⟨by decide, by decide⟩, by decide⟩
  | succ days ih =>
    obtain ⟨date, valid, counted⟩ := ih
    exact ⟨date.next, valid.next, by rw [valid.toDays_next, counted]⟩
  | pred days ih =>
    obtain ⟨date, valid, counted⟩ := ih
    obtain ⟨before, isValid, rfl⟩ := valid.exists_before
    have next := isValid.toDays_next
    exact ⟨before, isValid, by omega⟩

theorem Date.ofDays_isValid (days : Int) : (ofDays days).IsValid := by
  obtain ⟨date, valid, rfl⟩ := exists_toDays_eq days
  rw [valid.ofDays_toDays]
  exact valid

theorem Date.toDays_ofDays (days : Int) : (ofDays days).toDays = days := by
  obtain ⟨date, valid, rfl⟩ := exists_toDays_eq days
  rw [valid.ofDays_toDays]

/-! ### Times of day -/

structure DateTime.IsValid (time : DateTime) : Prop where
  date : time.date.IsValid
  hour : 0 ≤ time.hour ∧ time.hour ≤ 23
  minute : 0 ≤ time.minute ∧ time.minute ≤ 59
  second : 0 ≤ time.second ∧ time.second ≤ 59

/-- One second later. -/
def DateTime.tick (time : DateTime) : DateTime :=
  if time.second < 59 then { time with second := time.second + 1 }
  else if time.minute < 59 then { time with minute := time.minute + 1, second := 0 }
  else if time.hour < 23 then { time with hour := time.hour + 1, minute := 0, second := 0 }
  else ⟨time.date.next, 0, 0, 0⟩

theorem DateTime.IsValid.tick {time : DateTime} (valid : time.IsValid) : time.tick.IsValid := by
  obtain ⟨date, hour, minute, second⟩ := valid
  unfold DateTime.tick
  split_ifs
  · exact ⟨date, hour, minute, by dsimp only; omega⟩
  · exact ⟨date, hour, by dsimp only; omega, by simp⟩
  · exact ⟨date, by dsimp only; omega, by simp, by simp⟩
  · exact ⟨date.next, by simp, by simp, by simp⟩

theorem DateTime.IsValid.toSeconds_tick {time : DateTime} (valid : time.IsValid) :
    time.tick.toSeconds = time.toSeconds + 1 := by
  obtain ⟨date, hour, minute, second⟩ := valid
  have day := date.toDays_next
  unfold DateTime.tick
  split_ifs <;> simp only [toSeconds] <;> omega

theorem DateTime.IsValid.ofSeconds_toSeconds {time : DateTime} (valid : time.IsValid) :
    ofSeconds time.toSeconds = time := by
  obtain ⟨date, hour, minute, second⟩ := time
  obtain ⟨isDate, hours, minutes, seconds⟩ := valid
  dsimp only at isDate hours minutes seconds
  have days : (date.toDays * 86400 + hour * 3600 + minute * 60 + second) / 86400 = date.toDays := by
    omega
  simp only [toSeconds, ofSeconds, days, isDate.ofDays_toDays]
  congr 1 <;> omega

theorem DateTime.toSeconds_ofSeconds (seconds : Int) : (ofSeconds seconds).toSeconds = seconds := by
  simp only [toSeconds, ofSeconds, Date.toDays_ofDays]
  omega

theorem DateTime.ofSeconds_isValid (seconds : Int) : (ofSeconds seconds).IsValid :=
  ⟨Date.ofDays_isValid _, by simp only [ofSeconds]; omega, by simp only [ofSeconds]; omega,
    by simp only [ofSeconds]; omega⟩

/-- The recursion of calendar time: the next second is one tick later. -/
theorem DateTime.ofSeconds_succ (seconds : Int) :
    ofSeconds (seconds + 1) = (ofSeconds seconds).tick := by
  have valid := ofSeconds_isValid seconds
  rw [← valid.tick.ofSeconds_toSeconds, valid.toSeconds_tick, toSeconds_ofSeconds]

/-- A valid time is so many seconds after 1970-01-01T00:00:00, or before it when the number is
negative: the seconds are the ticks between them. -/
inductive Elapsed : DateTime → Int → Prop where
  | epoch : Elapsed ⟨⟨1970, 1, 1⟩, 0, 0, 0⟩ 0
  | later {time : DateTime} {seconds : Int} :
      Elapsed time seconds → Elapsed time.tick (seconds + 1)
  | earlier {time : DateTime} {seconds : Int} :
      time.IsValid → Elapsed time.tick (seconds + 1) → Elapsed time seconds

theorem elapsed_ofSeconds (seconds : Int) : Elapsed (DateTime.ofSeconds seconds) seconds := by
  induction seconds with
  | zero => exact .epoch
  | succ seconds ih =>
    rw [DateTime.ofSeconds_succ]
    exact ih.later
  | pred seconds ih =>
    refine .earlier (DateTime.ofSeconds_isValid _) ?_
    rw [← DateTime.ofSeconds_succ]
    simpa using ih

theorem Elapsed.ofSeconds_eq {time : DateTime} {seconds : Int} (elapsed : Elapsed time seconds) :
    DateTime.ofSeconds seconds = time := by
  induction elapsed with
  | epoch => decide
  | later _ ih => rw [DateTime.ofSeconds_succ, ih]
  | @earlier time seconds valid _ ih =>
    have counted : seconds + 1 = time.toSeconds + 1 := by
      rw [← DateTime.toSeconds_ofSeconds (seconds + 1), ih, valid.toSeconds_tick]
    obtain rfl : seconds = time.toSeconds := by omega
    exact valid.ofSeconds_toSeconds

theorem elapsed_iff (time : DateTime) (seconds : Int) :
    Elapsed time seconds ↔ DateTime.ofSeconds seconds = time :=
  ⟨Elapsed.ofSeconds_eq, fun same => same ▸ elapsed_ofSeconds seconds⟩

/-- The last second of a leap day, before the year zero. -/
example : Elapsed ⟨⟨-4, 2, 29⟩, 23, 59, 59⟩ (-62288265601) :=
  (elapsed_iff _ _).mpr (by decide)

/-! ### Order and range -/

/-- The units of a time, the largest first. -/
def DateTime.parts (time : DateTime) : List (String × Int) :=
  [("year", time.date.year), ("month", time.date.month), ("day", time.date.day),
    ("hour", time.hour), ("minute", time.minute), ("second", time.second)]

/-- Times compare as their numbers do. -/
def DateTime.fields (time : DateTime) : List Int :=
  time.parts.map Prod.snd

theorem DateTime.IsValid.fields_lt_tick {time : DateTime} (valid : time.IsValid) :
    time.fields < time.tick.fields := by
  obtain ⟨⟨year, month, day⟩, hour, minute, second⟩ := time
  obtain ⟨⟨⟨first, last⟩, _⟩, _⟩ := valid
  unfold DateTime.tick Date.next
  split_ifs <;> simp [fields, parts, List.cons_lt_cons_iff]

theorem DateTime.fields_strictMono : StrictMono fun seconds => (ofSeconds seconds).fields := by
  refine strictMono_int_of_lt_succ fun seconds => ?_
  rw [ofSeconds_succ]
  exact (ofSeconds_isValid seconds).fields_lt_tick

theorem DateTime.year_monotone : Monotone fun seconds => (ofSeconds seconds).date.year := by
  intro earlier later le
  rcases le.lt_or_eq with lt | rfl
  · have before : (ofSeconds earlier).fields < (ofSeconds later).fields := fields_strictMono lt
    simp only [fields, parts, List.map_cons, List.cons_lt_cons_iff] at before
    dsimp only
    omega
  · rfl

/-- The range is that of the years from -262143 to 262142. -/
theorem isInRange_iff (seconds : Int) :
    isInRange seconds = true ↔ -262143 ≤ (DateTime.ofSeconds seconds).date.year ∧
      (DateTime.ofSeconds seconds).date.year ≤ 262142 := by
  have beforeFirst : (DateTime.ofSeconds (firstSecond - 1)).date.year = -262144 := by decide
  have first : (DateTime.ofSeconds firstSecond).date.year = -262143 := by decide
  have last : (DateTime.ofSeconds lastSecond).date.year = 262142 := by decide
  have afterLast : (DateTime.ofSeconds (lastSecond + 1)).date.year = 262143 := by decide
  simp only [isInRange, Bool.and_eq_true, decide_eq_true_eq]
  constructor
  · rintro ⟨low, high⟩
    exact ⟨first ▸ DateTime.year_monotone low, last ▸ DateTime.year_monotone high⟩
  · rintro ⟨low, high⟩
    constructor
    · by_contra early
      have year := DateTime.year_monotone (show seconds ≤ firstSecond - 1 by omega)
      dsimp only at year
      omega
    · by_contra late
      have year := DateTime.year_monotone (show lastSecond + 1 ≤ seconds by omega)
      dsimp only at year
      omega

end Recast.Calendar
