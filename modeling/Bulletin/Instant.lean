import Bulletin.Text.Blank
import Bulletin.Number.Decimal
import Bulletin.Json.Draft

/-!
# Instants

An instant is a count of seconds from the start of 1970 in UTC and a count of nanoseconds within
the second. The nanoseconds of a leap second run on from `10 ^ 9`, so a leap second is part of
the second before it and instants are ordered by the pair.

The calendar ends: years run from -262143 to 262142. Moving an instant out of this range has no
result, and what that means is for the caller to say.

Texts are those of RFC 3339. Writing uses the fewest of 0, 3, 6 and 9 decimals that lose nothing,
and a sign before a year that does not have four digits. Reading is liberal: blanks are allowed
between the parts, a space may stand for the `T`, and any number of decimals may be given.
-/

namespace Bulletin

/-! ## The calendar -/

namespace Calendar

/-- The number of the day in the proleptic Gregorian calendar, 1970-01-01 being day 0. Years are
counted from March, so that the leap day is the last of its year. -/
def dayNumber (year month day : Int) : Int :=
  let y := if month ≤ 2 then year - 1 else year
  let era := y.fdiv 400
  let yearOfEra := y - era * 400
  let monthFromMarch := (month + 9).fmod 12
  let dayOfYear := (153 * monthFromMarch + 2).fdiv 5 + day - 1
  let dayOfEra := yearOfEra * 365 + yearOfEra.fdiv 4 - yearOfEra.fdiv 100 + dayOfYear
  era * 146097 + dayOfEra - 719468

/-- Year, month and day of a day number. -/
def date (number : Int) : Int × Int × Int :=
  let z := number + 719468
  let era := z.fdiv 146097
  let dayOfEra := z - era * 146097
  let yearOfEra :=
    (dayOfEra - dayOfEra.fdiv 1460 + dayOfEra.fdiv 36524 - dayOfEra.fdiv 146096).fdiv 365
  let dayOfYear := dayOfEra - (365 * yearOfEra + yearOfEra.fdiv 4 - yearOfEra.fdiv 100)
  let monthFromMarch := (5 * dayOfYear + 2).fdiv 153
  let day := dayOfYear - (153 * monthFromMarch + 2).fdiv 5 + 1
  let month := if monthFromMarch < 10 then monthFromMarch + 3 else monthFromMarch - 9
  let year := yearOfEra + era * 400 + (if month ≤ 2 then 1 else 0)
  (year, month, day)

def isLeapYear (year : Int) : Bool :=
  year.fmod 4 == 0 && (year.fmod 100 != 0 || year.fmod 400 == 0)

def daysInMonth (year month : Int) : Int :=
  if month = 2 then (if isLeapYear year then 29 else 28)
  else if month = 4 ∨ month = 6 ∨ month = 9 ∨ month = 11 then 30
  else 31

end Calendar

/-! ## The type -/

/-- A point in time within the range of the calendar. -/
structure Instant where
  second : Int
  nano : Nat
  inRange : -8334601228800 ≤ second ∧ second < 8210266876800
  nano_lt : nano < 2000000000
deriving DecidableEq

namespace Instant

instance : Inhabited Instant := ⟨⟨0, 0, by decide, by decide⟩⟩

/-- The instant of the given parts, if it is in range. -/
def ofParts? (second : Int) (nano : Nat) : Option Instant :=
  if h : (-8334601228800 ≤ second ∧ second < 8210266876800) ∧ nano < 2000000000 then
    some ⟨second, nano, h.1, h.2⟩
  else none

def order (a b : Instant) : Ordering :=
  (compare a.second b.second).then (compare a.nano b.nano)

/-- Whether an instant is strictly before another. -/
def before (a b : Instant) : Bool := a.order b == .lt

/-- Moves an instant by a number of nanoseconds. A move that ends within a leap second stays in it;
one that leaves it forward counts it as part of the second before, one that leaves it backward by
a second or more as part of the second after. -/
def add? (t : Instant) (nanos : Int) : Option Instant :=
  let seconds := nanos.tdiv 1000000000
  let rest := nanos.tmod 1000000000
  let inLeap := 1000000000 ≤ t.nano
  if inLeap ∧ seconds = 0 ∧ (t.nano : Int) + rest < 2000000000 then
    ofParts? t.second ((t.nano : Int) + rest).toNat
  else
    let nano : Int := if inLeap then (t.nano : Int) - 1000000000 else t.nano
    let second := if inLeap ∧ seconds < 0 then t.second + 1 else t.second
    let total := nano + rest
    ofParts? (second + seconds + total.fdiv 1000000000) (total.fmod 1000000000).toNat

def addMinutes? (t : Instant) (minutes : Int) : Option Instant :=
  t.add? (minutes * 60000000000)

def addMillis? (t : Instant) (millis : Int) : Option Instant := t.add? (millis * 1000000)

/-- The second within the day. -/
def secondOfDay (t : Instant) : Int := t.second.fmod 86400

/-- The nanoseconds from one instant to another. A leap second that lies between the two times
of day counts. -/
def nanosBetween (start stop : Instant) : Int :=
  let leap : Int :=
    if start.secondOfDay < stop.secondOfDay ∧ 1000000000 ≤ start.nano then 1
    else if stop.secondOfDay < start.secondOfDay ∧ 1000000000 ≤ stop.nano then -1
    else 0
  (stop.second - start.second + leap) * 1000000000 + ((stop.nano : Int) - start.nano)

/-- The whole milliseconds from one instant to another, none if the clock went back. -/
def elapsedMillis (start stop : Instant) : Nat := (nanosBetween start stop).toNat / 1000000

/-! ## Writing -/

/-- A year: four digits, or a sign and at least four digits. -/
def yearText (year : Int) : List Char :=
  if 0 ≤ year ∧ year ≤ 9999 then paddedText 4 year.toNat
  else (if year < 0 then '-' else '+') :: paddedText 4 year.natAbs

/-- The fewest of 0, 3, 6 and 9 decimals. -/
def fractionText (nano : Nat) : List Char :=
  if nano = 0 then []
  else if nano % 1000000 = 0 then '.' :: paddedText 3 (nano / 1000000)
  else if nano % 1000 = 0 then '.' :: paddedText 6 (nano / 1000)
  else '.' :: paddedText 9 nano

/-- Date and time of day without the offset. -/
def localText (t : Instant) : List Char :=
  let (year, month, day) := Calendar.date (t.second.fdiv 86400)
  let ofDay := t.secondOfDay.toNat
  let leap := 1000000000 ≤ t.nano
  let second := ofDay % 60 + (if leap then 1 else 0)
  let nano := if leap then t.nano - 1000000000 else t.nano
  yearText year ++ '-' :: paddedText 2 month.toNat ++ '-' :: paddedText 2 day.toNat
    ++ 'T' :: paddedText 2 (ofDay / 3600) ++ ':' :: paddedText 2 (ofDay / 60 % 60)
    ++ ':' :: paddedText 2 second ++ fractionText nano

/-- The text in JSON, with `Z` for the offset. -/
def text (t : Instant) : String := String.ofList (t.localText ++ ['Z'])

/-- The text in a message, with the offset in digits. -/
def messageText (t : Instant) : String := String.ofList (t.localText ++ "+00:00".toList)

def toJson (t : Instant) : Json := .string t.text

/-! ## Reading -/

/-- Reads between one and `most` digits, after blanks. -/
def readDigits (most : Nat) (text : List Char) : Option (Int × List Char) :=
  let text := Text.trimStart text
  let digits := (text.take most).takeWhile Char.isDigit
  if digits.isEmpty then none else some (digitsValue digits, text.drop digits.length)

/-- Reads a year: up to four digits, or a sign and any number of digits. -/
def readYear (text : List Char) : Option (Int × List Char) :=
  match Text.trimStart text with
  | '-' :: rest =>
    let (digits, rest) := spanDigits rest
    if digits.isEmpty then none else some (-(digitsValue digits : Int), rest)
  | '+' :: rest =>
    let (digits, rest) := spanDigits rest
    if digits.isEmpty then none else some (digitsValue digits, rest)
  | rest => readDigits 4 rest

/-- Reads one fixed character, after blanks. -/
def readMark (mark : Char) (text : List Char) : Option (List Char) :=
  match Text.trimStart text with
  | c :: rest => if c = mark then some rest else none
  | [] => none

/-- Reads optional decimals as nanoseconds; those after the ninth are passed over. -/
def readFraction : List Char → Option (Nat × List Char)
  | '.' :: rest =>
    let (digits, rest) := spanDigits rest
    if digits.isEmpty then none
    else
      let kept := digits.take 9
      some (digitsValue kept * 10 ^ (9 - kept.length), rest)
  | rest => some (0, rest)

/-- Reads an offset from UTC in seconds: `Z`, `UTC`, or a sign with hours and minutes, between
which colons and blanks may stand. -/
def readOffset (text : List Char) : Option (Int × List Char) :=
  let text := Text.trimStart text
  if (text.take 3).map Char.toLower = ['u', 't', 'c'] then some (0, text.drop 3)
  else
    match text with
    | [] => none
    | c :: rest =>
      if c = 'Z' ∨ c = 'z' then some (0, rest)
      else if c = '+' ∨ c = '-' ∨ c = '\u2212' then
        match rest with
        | h1 :: h2 :: rest =>
          if h1.isDigit && h2.isDigit then
            match rest.dropWhile (fun c => c == ':' || Text.isBlank c) with
            | m1 :: m2 :: rest =>
              if m1.isDigit && m2.isDigit && decide (digitsValue [m1] ≤ 5) then
                let seconds : Int := digitsValue [h1, h2] * 3600 + digitsValue [m1, m2] * 60
                some (if c = '+' then seconds else -seconds, rest)
              else none
            | _ => none
          else none
        | _ => none
      else none

/-- Reads an RFC 3339 time. The parts must be in range and the day must exist; the sixtieth second
of a minute is a leap second. -/
def ofChars? (text : List Char) : Option Instant := do
  let (year, rest) ← readYear text
  let rest ← readMark '-' rest
  let (month, rest) ← readDigits 2 rest
  let rest ← readMark '-' rest
  let (day, rest) ← readDigits 2 rest
  let rest ← match rest with
    | c :: rest => if c = 'T' ∨ c = 't' ∨ c = ' ' then some rest else none
    | [] => none
  let (hour, rest) ← readDigits 2 rest
  let rest ← readMark ':' rest
  let (minute, rest) ← readDigits 2 rest
  let rest ← readMark ':' rest
  let (second, rest) ← readDigits 2 rest
  let (nano, rest) ← readFraction rest
  let (offset, rest) ← readOffset rest
  if (Text.trimStart rest).isEmpty ∧ 1 ≤ month ∧ month ≤ 12 ∧ 1 ≤ day
      ∧ day ≤ Calendar.daysInMonth year month ∧ hour < 24 ∧ minute < 60 ∧ second ≤ 60
      ∧ -86400 < offset ∧ offset < 86400 ∧ -262143 ≤ year ∧ year ≤ 262142 then
    let leap := second = 60
    let second := if leap then 59 else second
    let nano := if leap then nano + 1000000000 else nano
    let inDay := hour * 3600 + minute * 60 + second
    ofParts? (Calendar.dayNumber year month day * 86400 + inDay - offset) nano
  else none

def ofString? (text : String) : Option Instant := ofChars? text.toList

def ofDraft? : Draft → Option Instant
  | .string s => ofString? s
  | _ => none

end Instant

end Bulletin
