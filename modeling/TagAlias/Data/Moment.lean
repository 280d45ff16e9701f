import TagAlias.Text.Quoted
/-!
# Dates and times

A configuration may hold a date, a time of day, or both, with or without the distance from universal time.
-/
namespace TagAlias

structure Day where
  year : Nat
  month : Nat
  day : Nat
  deriving DecidableEq, Repr

structure TimeOfDay where
  hour : Nat
  minute : Nat
  second : Nat
  microsecond : Nat
  deriving DecidableEq, Repr

inductive Moment where
  | date (d : Day)
  | time (t : TimeOfDay)
  /-- A date and a time, and minutes east of universal time if they are known. -/
  | both (d : Day) (t : TimeOfDay) (offset : Option Int)
  deriving DecidableEq, Repr

namespace Day

def isLeap (year : Nat) : Bool := year % 4 == 0 && (year % 100 != 0 || year % 400 == 0)

def daysOf (year month : Nat) : Nat :=
  if month == 2 then (if isLeap year then 29 else 28)
  else if [4, 6, 9, 11].contains month then 30
  else 31

/-- Whether there is such a day in the calendar. -/
def exists_ (d : Day) : Bool :=
  1 ≤ d.year && 1 ≤ d.month && d.month ≤ 12 && 1 ≤ d.day && d.day ≤ daysOf d.year d.month

end Day

def TimeOfDay.exists_ (t : TimeOfDay) : Bool := t.hour < 24 && t.minute < 60 && t.second < 60

namespace Moment

def padded (width n : Nat) : String :=
  let ds := Nat.toDigits 10 n
  String.ofList (List.replicate (width - ds.length) '0' ++ ds)

def displayDay (d : Day) : String := padded 4 d.year ++ "-" ++ padded 2 d.month ++ "-" ++ padded 2 d.day

def displayTime (t : TimeOfDay) : String :=
  padded 2 t.hour ++ ":" ++ padded 2 t.minute ++ ":" ++ padded 2 t.second
    ++ (if t.microsecond == 0 then "" else "." ++ padded 6 t.microsecond)

def displayOffset (minutes : Int) : String :=
  (if minutes < 0 then "-" else "+") ++ padded 2 (minutes.natAbs / 60) ++ ":" ++ padded 2 (minutes.natAbs % 60)

def display : Moment → String
  | date d => displayDay d
  | time t => displayTime t
  | both d t none => displayDay d ++ " " ++ displayTime t
  | both d t (some o) => displayDay d ++ " " ++ displayTime t ++ displayOffset o

/-! ## In the notation of a call -/

def dayParts (d : Day) : List String := [toString d.year, toString d.month, toString d.day]

/-- Seconds and their fraction are left out where nothing but zeros follows. -/
def timeParts (t : TimeOfDay) : List String :=
  [toString t.hour, toString t.minute]
    ++ (if t.second == 0 && t.microsecond == 0 then [] else [toString t.second])
    ++ (if t.microsecond == 0 then [] else [toString t.microsecond])

/-- A distance is a count of days and of seconds within a day. -/
def zonePart (minutes : Int) : String :=
  if minutes == 0 then "tzinfo=datetime.timezone.utc"
  else
    let days := minutes.fdiv 1440
    let seconds := 60 * minutes.fmod 1440
    let parts := (if days == 0 then [] else ["days=" ++ toString days])
      ++ (if seconds == 0 then [] else ["seconds=" ++ toString seconds])
    "tzinfo=datetime.timezone(datetime.timedelta(" ++ ", ".intercalate parts ++ "))"

def call (name : String) (parts : List String) : String := "datetime." ++ name ++ "(" ++ ", ".intercalate parts ++ ")"

def quoted : Moment → String
  | date d => call "date" (dayParts d)
  | time t => call "time" (timeParts t)
  | both d t o => call "datetime" (dayParts d ++ timeParts t ++ (o.map zonePart).toList)

end Moment

end TagAlias
