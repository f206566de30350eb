import RainMeta.Text

/-!
# Dates and moments

* `Date`: a day of the calendar that is used today, in the years 1 to 9999.
* `Moment`: a date with a time of day and possibly an offset from universal time.
* `Date.text`, `Date.quoted`, and the same for moments: how they are written, on their own
  and inside messages.
-/

namespace RainMeta

/-! ### Dates -/

/-- A day of the calendar. -/
structure Date where
  year : Nat
  month : Nat
  day : Nat
  deriving DecidableEq

/-- Every fourth year is a leap year, but of the full centuries only every fourth. -/
def isLeapYear (year : Nat) : Bool :=
  year % 4 = 0 && (year % 100 ≠ 0 || year % 400 = 0)

/-- The number of days in a month. -/
def daysIn (year month : Nat) : Nat :=
  match month with
  | 2 => if isLeapYear year then 29 else 28
  | 4 | 6 | 9 | 11 => 30
  | _ => 31

/-- Why numbers do not name a date or a moment. -/
inductive CalendarError
  | year (n : Nat) | month | day | hour | minute | second | offset (text : Text)
  deriving DecidableEq

/-- The words for it. -/
def CalendarError.message : CalendarError → Text
  | .year n => "year " ++ Text.ofNat n ++ " is out of range"
  | .month => "month must be in 1..12"
  | .day => "day is out of range for month"
  | .hour => "hour must be in 0..23"
  | .minute => "minute must be in 0..59"
  | .second => "second must be in 0..59"
  | .offset text => "offset must be a timedelta strictly between -timedelta(hours=24) and "
      ++ "timedelta(hours=24), not " ++ text ++ "."

/-- The date with these numbers, if there is one. -/
def Date.ofNumbers (year month day : Nat) : Except CalendarError Date :=
  if year < 1 || 9999 < year then .error (.year year)
  else if month < 1 || 12 < month then .error .month
  else if day < 1 || daysIn year month < day then .error .day
  else .ok { year, month, day }

/-- The date as it is written: year, month and day with dashes between. -/
def Date.text (d : Date) : Text :=
  Text.ofNatPadded 10 4 d.year ++ "-" ++ Text.ofNatPadded 10 2 d.month ++ "-"
    ++ Text.ofNatPadded 10 2 d.day

/-- The date as messages show it. -/
def Date.quoted (d : Date) : Text :=
  "datetime.date(" ++ Text.join ", " [Text.ofNat d.year, Text.ofNat d.month, Text.ofNat d.day]
    ++ ")"

/-! ### Moments -/

/-- A time of day on a date; the offset from universal time is in seconds. -/
structure Moment where
  date : Date
  hour : Nat
  minute : Nat
  second : Nat
  microsecond : Nat
  offset : Option Int
  deriving DecidableEq

/-- A span of seconds as messages show it: whole days, which may be negative, and the seconds
that are left. -/
def quotedSpan (seconds : Int) : Text :=
  let days := seconds / 86400
  let rest := seconds % 86400
  let parts : List Text :=
    (if days = 0 then [] else ["days=" ++ Text.ofInt days])
      ++ (if rest = 0 then [] else ["seconds=" ++ Text.ofInt rest])
  let shown : Text := if parts.isEmpty then "0" else Text.join ", " parts
  "datetime.timedelta(" ++ shown ++ ")"

/-- The moment with these numbers, if there is one. -/
def Moment.ofNumbers (year month day hour minute second microsecond : Nat) (offset : Option Int) :
    Except CalendarError Moment := do
  match offset with
  | some s => if 86400 ≤ s.natAbs then throw (.offset (quotedSpan s))
  | none => pure ()
  let date ← Date.ofNumbers year month day
  if 23 < hour then throw .hour
  if 59 < minute then throw .minute
  if 59 < second then throw .second
  pure { date, hour, minute, second, microsecond, offset }

/-- The moment as it is written: date, time, and offset in hours and minutes. -/
def Moment.text (m : Moment) : Text :=
  let two (n : Nat) : Text := Text.ofNatPadded 10 2 n
  let fraction : Text :=
    if m.microsecond = 0 then [] else "." ++ Text.ofNatPadded 10 6 m.microsecond
  let zone : Text := match m.offset with
    | none => []
    | some s =>
      let sign : Text := if s < 0 then "-" else "+"
      sign ++ two (s.natAbs / 3600) ++ ":" ++ two (s.natAbs / 60 % 60)
  m.date.text ++ " " ++ two m.hour ++ ":" ++ two m.minute ++ ":" ++ two m.second ++ fraction ++ zone

/-- The moment as messages show it: seconds and their fractions are left out if they are
zero. -/
def Moment.quoted (m : Moment) : Text :=
  let numbers : List Nat := [m.date.year, m.date.month, m.date.day, m.hour, m.minute]
  let tail : List Nat :=
    if m.microsecond ≠ 0 then [m.second, m.microsecond]
    else if m.second ≠ 0 then [m.second] else []
  let zone : List Text := match m.offset with
    | none => []
    | some s =>
      if s = 0 then ["tzinfo=datetime.timezone.utc"]
      else ["tzinfo=datetime.timezone(" ++ quotedSpan s ++ ")"]
  "datetime.datetime(" ++ Text.join ", " ((numbers ++ tail).map Text.ofNat ++ zone) ++ ")"

end RainMeta
