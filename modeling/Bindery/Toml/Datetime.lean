/-!
# Dates and times

The dates and times of a TOML document: their parts, how they are read, and how they are written.
A date is checked against the calendar; seconds may be left out, and may be 60 for a leap second.
-/

namespace Bindery.Toml

/-- A day of the calendar. -/
structure Date where
  year : Nat
  month : Nat
  day : Nat
deriving DecidableEq, Repr

/-- A time of day. -/
structure Time where
  hour : Nat
  minute : Nat
  second : Nat
  /-- the digits behind the decimal point of the seconds -/
  fraction : List Char
deriving DecidableEq, Repr

/-- How far a time is from universal time. -/
inductive Offset where
  | zulu
  | minutes (count : Int)
deriving DecidableEq, Repr

/-- A date, a time, or both, the latter with or without an offset. -/
structure Datetime where
  date? : Option Date
  time? : Option Time
  offset? : Option Offset
deriving DecidableEq, Repr

def digitValue (c : Char) : Nat := c.toNat - '0'.toNat

def digitsValue (digits : List Char) : Nat :=
  digits.foldl (fun value c => 10 * value + digitValue c) 0

/-- Reads exactly `count` digits. -/
def readDigits? (count : Nat) (text : List Char) : Option (Nat × List Char) :=
  let digits := text.take count
  if digits.length = count && digits.all Char.isDigit then
    some (digitsValue digits, text.drop count)
  else none

def readMark? (mark : Char) : List Char → Option (List Char)
  | c :: rest => if c = mark then some rest else none
  | [] => none

def daysOfMonth (year month : Nat) : Nat :=
  if month = 2 then
    if year % 4 = 0 && (year % 100 ≠ 0 || year % 400 = 0) then 29 else 28
  else if month ∈ [4, 6, 9, 11] then 30
  else 31

def readDate? (text : List Char) : Option (Date × List Char) := do
  let (year, text) ← readDigits? 4 text
  let (month, text) ← readDigits? 2 (← readMark? '-' text)
  let (day, text) ← readDigits? 2 (← readMark? '-' text)
  if 1 ≤ month && month ≤ 12 && 1 ≤ day && day ≤ daysOfMonth year month then
    some (⟨year, month, day⟩, text)
  else none

def dropTrailingZeros (digits : List Char) : List Char :=
  (digits.reverse.dropWhile (· = '0')).reverse

/-- Reads the fraction of a second, if there is one; nine digits count. -/
def readFraction? (text : List Char) : Option (List Char × List Char) :=
  match text with
  | '.' :: rest =>
      let digits := rest.takeWhile Char.isDigit
      if digits.isEmpty then none
      else some (dropTrailingZeros (digits.take 9), rest.dropWhile Char.isDigit)
  | _ => some ([], text)

def readTime? (text : List Char) : Option (Time × List Char) := do
  let (hour, text) ← readDigits? 2 text
  let (minute, text) ← readDigits? 2 (← readMark? ':' text)
  let (second, fraction, text) ←
    match text with
    | ':' :: rest => do
        let (second, text) ← readDigits? 2 rest
        let (fraction, text) ← readFraction? text
        some (second, fraction, text)
    | _ => some (0, [], text)
  if hour ≤ 23 && minute ≤ 59 && second ≤ 60 then
    some (⟨hour, minute, second, fraction⟩, text)
  else none

/-- Reads the offset that follows a date and a time, up to the end of the text. -/
def readOffset? (text : List Char) : Option (Option Offset) :=
  match text with
  | [] => some none
  | ['Z'] | ['z'] => some (some .zulu)
  | sign :: rest => do
      let (hours, rest) ← readDigits? 2 rest
      let (minutes, rest) ← readDigits? 2 (← readMark? ':' rest)
      if rest.isEmpty && hours ≤ 23 && minutes ≤ 59 then
        let total : Int := ((hours * 60 + minutes : Nat) : Int)
        if sign = '+' then some (some (.minutes total))
        else if sign = '-' then some (some (.minutes (-total)))
        else none
      else none

/-- Reads a date or a time, or both. -/
def Datetime.read? (text : List Char) : Option Datetime :=
  match readDate? text with
  | some (date, []) => some ⟨some date, none, none⟩
  | some (date, separator :: rest) =>
      if separator = 'T' || separator = 't' || separator = ' ' then do
        let (time, rest) ← readTime? rest
        let offset? ← readOffset? rest
        some ⟨some date, some time, offset?⟩
      else none
  | none => do
      let (time, rest) ← readTime? text
      if rest.isEmpty then some ⟨none, some time, none⟩ else none

/-- A number with leading zeros up to `width` digits. -/
def padZeros (width n : Nat) : String :=
  let digits := (toString n).toList
  String.ofList (List.replicate (width - digits.length) '0' ++ digits)

def Date.text (date : Date) : String :=
  padZeros 4 date.year ++ "-" ++ padZeros 2 date.month ++ "-" ++ padZeros 2 date.day

def Time.text (time : Time) : String :=
  padZeros 2 time.hour ++ ":" ++ padZeros 2 time.minute ++ ":" ++ padZeros 2 time.second
    ++ if time.fraction.isEmpty then "" else "." ++ String.ofList time.fraction

def Offset.text : Offset → String
  | .zulu => "Z"
  | .minutes count =>
      (if count < 0 then "-" else "+")
        ++ padZeros 2 (count.natAbs / 60) ++ ":" ++ padZeros 2 (count.natAbs % 60)

/-- How a date, a time, or both are written. -/
def Datetime.text (datetime : Datetime) : String :=
  let date := (datetime.date?.map Date.text).getD ""
  let time := (datetime.time?.map Time.text).getD ""
  let offset := (datetime.offset?.map Offset.text).getD ""
  date ++ (if datetime.date?.isSome && datetime.time?.isSome then "T" else "") ++ time ++ offset

end Bindery.Toml
