import XmlHarvest.Text.CodePoint
import XmlHarvest.Text.Split

/-! # Dates and times

A date of the Gregorian calendar, with a time of day or without one.  A time may
be given relative to universal time. -/
set_option autoImplicit false

namespace XmlHarvest

inductive TimestampProblem where
  | year (n : Nat)
  | month
  | day
  | hour
  | minute
  | second
  | offset (seconds : Int)
  deriving DecidableEq, Repr

structure TimeOfDay where
  hour : Nat
  minute : Nat
  second : Nat
  microsecond : Nat
  /-- The seconds by which local time is ahead of universal time. -/
  offset : Option Int
  deriving DecidableEq, Repr, Inhabited

structure Timestamp where
  year : Nat
  month : Nat
  day : Nat
  time : Option TimeOfDay
  deriving DecidableEq, Repr, Inhabited

def durationText (seconds : Int) : Text :=
  let days := seconds.fdiv 86400
  let rest := seconds.fmod 86400
  let parts : List Text := (if days == 0 then [] else [("days=" ++ toString days : Text)]) ++
    (if rest == 0 then [] else [("seconds=" ++ toString rest : Text)])
  "datetime.timedelta(" ++ (if parts.isEmpty then ("0" : Text) else Text.joinWith ", " parts) ++ ")"

def TimestampProblem.message : TimestampProblem → Text
  | year n => "year " ++ toString n ++ " is out of range"
  | month => "month must be in 1..12"
  | day => "day is out of range for month"
  | hour => "hour must be in 0..23"
  | minute => "minute must be in 0..59"
  | second => "second must be in 0..59"
  | offset seconds =>
    "offset must be a timedelta strictly between -timedelta(hours=24) and " ++
      "timedelta(hours=24), not " ++ durationText seconds ++ "."

namespace Timestamp

def isLeap (year : Nat) : Bool :=
  year % 4 == 0 && (year % 100 != 0 || year % 400 == 0)

def daysIn (year month : Nat) : Nat :=
  if month == 2 then (if isLeap year then 29 else 28)
  else if [4, 6, 9, 11].contains month then 30
  else 31

def timeProblem? (t : TimeOfDay) : Option TimestampProblem :=
  if 24 ≤ t.hour then some .hour
  else if 60 ≤ t.minute then some .minute
  else if 60 ≤ t.second then some .second
  else none

def problem? (t : Timestamp) : Option TimestampProblem :=
  match t.time.bind TimeOfDay.offset with
  | some seconds =>
    if 86400 ≤ seconds.natAbs then some (.offset seconds) else ofDate
  | none => ofDate
where
  ofDate : Option TimestampProblem :=
    if t.year == 0 then some (.year 0)
    else if t.month == 0 || 12 < t.month then some .month
    else if t.day == 0 || daysIn t.year t.month < t.day then some .day
    else t.time.bind timeProblem?

def padded (width n : Nat) : Text :=
  let ds := Text.digits 10 n
  List.replicate (width - ds.length) (.char '0') ++ ds

def offsetText (seconds : Int) : Text :=
  let minutes := seconds.natAbs / 60
  (if seconds < 0 then "-" else "+") ++ padded 2 (minutes / 60) ++ ":" ++ padded 2 (minutes % 60)

def text (t : Timestamp) : Text :=
  let date := padded 4 t.year ++ "-" ++ padded 2 t.month ++ "-" ++ padded 2 t.day
  match t.time with
  | none => date
  | some c =>
    date ++ " " ++ padded 2 c.hour ++ ":" ++ padded 2 c.minute ++ ":" ++ padded 2 c.second ++
      (if c.microsecond == 0 then "" else "." ++ padded 6 c.microsecond : Text) ++
      ((c.offset.map offsetText).getD "")

def typeName (t : Timestamp) : Text := if t.time.isSome then "datetime" else "date"

def fullTypeName (t : Timestamp) : Text := "datetime." ++ t.typeName

def zoneText (seconds : Int) : Text :=
  if seconds == 0 then "datetime.timezone.utc"
  else "datetime.timezone(" ++ durationText seconds ++ ")"

/-- The numbers of a time; seconds and their fraction are left out at the end
when they are zero. -/
def timeNumbers (c : TimeOfDay) : List Nat :=
  [c.hour, c.minute] ++
    (if c.microsecond != 0 then [c.second, c.microsecond]
    else if c.second != 0 then [c.second] else [])

def display (t : Timestamp) : Text :=
  let numbers := [t.year, t.month, t.day] ++ ((t.time.map timeNumbers).getD [])
  let zone : List Text := match t.time.bind TimeOfDay.offset with
    | some seconds => ["tzinfo=" ++ zoneText seconds]
    | none => []
  t.fullTypeName ++ "(" ++ Text.joinWith ", " (numbers.map (Text.digits 10) ++ zone) ++ ")"

def dayNumber (t : Timestamp) : Nat :=
  let years := t.year - 1
  let days := (List.range (t.month - 1)).foldl (fun n m => n + daysIn t.year (m + 1)) 0
  years * 365 + years / 4 - years / 100 + years / 400 + days + t.day

def moment? (t : Timestamp) : Option (Int × Nat) :=
  match t.time with
  | some ⟨h, m, s, micro, some offset⟩ =>
    some (((t.dayNumber * 86400 + h * 3600 + m * 60 + s : Nat) : Int) - offset, micro)
  | _ => none

/-- Times that are given relative to universal time are the same when they are
one moment, all others when they agree in every part. -/
def same (t u : Timestamp) : Bool :=
  match t.moment?, u.moment? with
  | some a, some b => a == b
  | none, none => t == u
  | _, _ => false

example : (⟨2001, 12, 14, some ⟨21, 59, 43, 100000, some (-18000)⟩⟩ : Timestamp).text =
    "2001-12-14 21:59:43.100000-05:00" := by decide +kernel

end Timestamp
end XmlHarvest
