import ApiContract.Tree.Basic
import ApiContract.Yaml.Number

/-! # Dates and times in plain text

A date is written year, month, day; a time of day and an offset may follow. A date
alone needs two digits for its month and day to be known without a tag.
-/
namespace ApiContract.Yaml

structure Clock where
  hour : Nat
  minute : Nat
  second : Nat
  micro : Nat
  offset : Option Int

structure Moment where
  year : Nat
  month : Nat
  day : Nat
  clock : Option Clock

namespace Moment

abbrev Reader (α : Type) := List Char → Option (α × List Char)

def digits (count : Nat) : Reader Nat := fun text =>
  let run := text.take count
  if run.length == count && run.all Number.isDigit then
    some (JsonReader.digitsValue run, text.drop count)
  else none

def shortDigits : Reader Nat := fun text => digits 2 text <|> digits 1 text

def mark (c : Char) : Reader Unit := fun text =>
  match text with
  | x :: rest => if x == c then some ((), rest) else none
  | [] => none

def isGap (c : Char) : Bool := c == ' ' || c == '\t'

/-- What stands between a date and its time. -/
def timeMark : Reader Unit := fun text =>
  match text with
  | 'T' :: rest => some ((), rest)
  | 't' :: rest => some ((), rest)
  | x :: rest => if isGap x then some ((), rest.dropWhile isGap) else none
  | [] => none

def millionths (digits : List Char) : Nat :=
  let kept := digits.take 6
  JsonReader.digitsValue kept * Nat.pow 10 (6 - kept.length)

def fraction : List Char → Nat × List Char
  | '.' :: rest => (millionths (rest.takeWhile Number.isDigit), rest.dropWhile Number.isDigit)
  | text => (0, text)

/-- The minutes of an offset, when they are written. -/
def offsetMinutes (text : List Char) : Nat × List Char :=
  match mark ':' text with
  | some (_, rest) => (digits 2 rest).getD (0, text)
  | none => (0, text)

def signedOffset (negative : Bool) (text : List Char) : Option (Option Int × List Char) := do
  let (hours, afterHours) ← shortDigits text
  let (minutes, rest) := offsetMinutes afterHours
  let seconds : Int := (hours * 60 + minutes) * 60
  pure (some (if negative then -seconds else seconds), rest)

def offset (text : List Char) : Option (Option Int × List Char) :=
  match text.dropWhile isGap with
  | 'Z' :: rest => some (some 0, rest)
  | '+' :: rest => signedOffset false rest
  | '-' :: rest => signedOffset true rest
  | _ => some (none, text)

def timeOfDay : Reader Clock := fun text => do
  let (_, atHour) ← timeMark text
  let (hour, afterHour) ← shortDigits atHour
  let (_, atMinute) ← mark ':' afterHour
  let (minute, afterMinute) ← digits 2 atMinute
  let (_, atSecond) ← mark ':' afterMinute
  let (second, afterSecond) ← digits 2 atSecond
  let (micro, behind) := fraction afterSecond
  let (offset, rest) ← offset behind
  pure (⟨hour, minute, second, micro, offset⟩, rest)

/-- The parts of a date, with a time of day when more than the date is written. -/
def parse? (text : List Char) : Option Moment := do
  let (year, afterYear) ← digits 4 text
  let (_, atMonth) ← mark '-' afterYear
  let (month, afterMonth) ← shortDigits atMonth
  let (_, atDay) ← mark '-' afterMonth
  let (day, afterDay) ← shortDigits atDay
  if afterDay.isEmpty then pure ⟨year, month, day, none⟩
  else
    let (time, rest) ← timeOfDay afterDay
    if rest.isEmpty then pure ⟨year, month, day, some time⟩ else none

def isPlain (text : List Char) : Bool :=
  (parse? text).any fun m => m.clock.isSome || text.length == 10

def isLeapYear (year : Nat) : Bool :=
  year % 4 == 0 && (year % 100 != 0 || year % 400 == 0)

def daysIn (year month : Nat) : Nat :=
  if month == 2 then (if isLeapYear year then 29 else 28)
  else if [4, 6, 9, 11].contains month then 30 else 31

def isDate (m : Moment) : Bool :=
  1 ≤ m.year && 1 ≤ m.month && m.month ≤ 12 && 1 ≤ m.day && m.day ≤ daysIn m.year m.month

def isClock (c : Clock) : Bool :=
  c.hour < 24 && c.minute < 60 && c.second < 60 && c.offset.all fun o => o.natAbs < 86400

/-- The date or the point in time, when there is such a one. -/
def value (m : Moment) : Result Scalar :=
  if !isDate m || !m.clock.all isClock then .error .notNumber
  else match m.clock with
    | none => .ok (.date m.year m.month m.day)
    | some c =>
      .ok (.instant ⟨m.year, m.month, m.day, c.hour, c.minute, c.second, c.micro, c.offset⟩)

end Moment

end ApiContract.Yaml
