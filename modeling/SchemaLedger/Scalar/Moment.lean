import SchemaLedger.Scalar.Fault

namespace SchemaLedger
namespace Scalar

structure Date where
  year : Nat
  month : Nat
  day : Nat
deriving DecidableEq, Repr

/-- A time on a date; the offset is in minutes east of universal time. -/
structure Moment where
  date : Date
  hour : Nat
  minute : Nat
  second : Nat
  micros : Nat
  offset : Option Int
deriving DecidableEq, Repr

/-! ## Validity -/

def isLeap (year : Nat) : Bool :=
  year % 4 = 0 && (year % 100 ≠ 0 || year % 400 = 0)

def daysIn (year month : Nat) : Nat :=
  if month = 2 then (if isLeap year then 29 else 28)
  else if month = 4 || month = 6 || month = 9 || month = 11 then 30
  else 31

def Date.check (d : Date) : Except Fault Date :=
  if d.year < 1 || d.year > 9999 then .error (.year d.year)
  else if d.month < 1 || d.month > 12 then .error .month
  else if d.day < 1 || d.day > daysIn d.year d.month then .error .day
  else .ok d

def dayMinutes : Int := 24 * 60

/-- The offset is looked at first, then the date, then the time of day. -/
def Moment.check (m : Moment) : Except Fault Moment := do
  match m.offset with
  | some offset =>
    if offset ≤ -dayMinutes || offset ≥ dayMinutes then
      .error (.offset (Int.fdiv offset dayMinutes) (60 * (Int.fmod offset dayMinutes).toNat))
  | none => .ok ()
  let _ ← m.date.check
  if m.hour > 23 then .error .hour
  else if m.minute > 59 then .error .minute
  else if m.second > 59 then .error .second
  else return m

/-! ## Order -/

def daysBefore (year month : Nat) : Nat :=
  ((List.range (month - 1)).map fun m => daysIn year (m + 1)).foldl (· + ·) 0

def Date.number (d : Date) : Nat :=
  let before := d.year - 1
  365 * before + before / 4 - before / 100 + before / 400 + daysBefore d.year d.month + d.day

def Moment.clock (m : Moment) : Nat :=
  (((m.date.number * 24 + m.hour) * 60 + m.minute) * 60 + m.second) * 1000000 + m.micros

/-- The same in universal time, for a moment with an offset. -/
def Moment.universal? (m : Moment) : Option Int :=
  m.offset.map fun offset => (m.clock : Int) - offset * 60 * 1000000

/-- Whether two moments are the same; one with and one without an offset are
not. -/
def Moment.isSame (m n : Moment) : Bool :=
  match m.universal?, n.universal? with
  | some a, some b => a = b
  | none, none => m.clock = n.clock
  | _, _ => false

/-! ## Text -/

def twoDigits (n : Nat) : Text :=
  Text.padZeros 2 (Text.ofNat n)

def Date.text (d : Date) : Text :=
  Text.padZeros 4 (Text.ofNat d.year) ++ .char '-' :: twoDigits d.month ++
    .char '-' :: twoDigits d.day

def offsetText (offset : Int) : Text :=
  (if offset < 0 then .char '-' else .char '+') :: twoDigits (offset.natAbs / 60) ++
    .char ':' :: twoDigits (offset.natAbs % 60)

def Moment.text (m : Moment) : Text :=
  m.date.text ++ .char ' ' :: twoDigits m.hour ++ .char ':' :: twoDigits m.minute ++
    .char ':' :: twoDigits m.second ++
    (if m.micros = 0 then [] else .char '.' :: Text.padZeros 6 (Text.ofNat m.micros)) ++
    (m.offset.map offsetText).getD []

def Date.fields (d : Date) : List Text :=
  [Text.ofNat d.year, Text.ofNat d.month, Text.ofNat d.day]

def Date.shown (d : Date) : Text :=
  "datetime.date(".text ++ Text.joined ", ".text d.fields ++ [.char ')']

def offsetShown (offset : Int) : Text :=
  if offset = 0 then "datetime.timezone.utc".text
  else
    let seconds := 60 * (Int.fmod offset dayMinutes).toNat
    "datetime.timezone(".text ++ durationText (Int.fdiv offset dayMinutes) seconds ++ [.char ')']

/-- A moment as it is shown inside a collection: seconds and their fractions only
as far as they are not zero. -/
def Moment.shown (m : Moment) : Text :=
  let small :=
    if m.micros ≠ 0 then [Text.ofNat m.second, Text.ofNat m.micros]
    else if m.second ≠ 0 then [Text.ofNat m.second]
    else []
  let zone := m.offset.toList.map fun offset => "tzinfo=".text ++ offsetShown offset
  "datetime.datetime(".text ++
    Text.joined ", ".text
      (m.date.fields ++ [Text.ofNat m.hour, Text.ofNat m.minute] ++ small ++ zone) ++ [.char ')']

/-! ## Reading -/

/-- The one or more leading ASCII digits of a text, at most `most` of them and at
least `least`, and the rest. -/
def takeDigits? (least most : Nat) (t : Text) : Option (Nat × Text) :=
  let digits := (t.take most).takeWhile CodePoint.isDigit
  if digits.length < least then none
  else some (digits.foldl (fun n c => 10 * n + (c.toNat - '0'.toNat)) 0, t.drop digits.length)

def takeChar? (c : CodePoint) (t : Text) : Option Text :=
  Text.after? [c] t

/-- Microseconds from the digits behind the point; more than six are cut off. -/
def readMicros (places : Text) : Nat :=
  let six := (places.take 6) ++ List.replicate (6 - places.length) (.char '0')
  six.foldl (fun n c => 10 * n + (c.toNat - '0'.toNat)) 0

def readOffset? (t : Text) : Option (Option Int) :=
  match t.dropWhile fun (c : CodePoint) => c = ' ' || c = '\t' with
  | [] => if t.isEmpty then some none else none
  | [.char 'Z'] => some (some 0)
  | sign :: rest =>
    if sign = '-' || sign = '+' then do
      let (hours, rest) ← takeDigits? 1 2 rest
      let (minutes, rest) ← match rest with
        | [] => some (0, [])
        | rest => do takeDigits? 2 2 (← takeChar? ':' rest)
      if !rest.isEmpty then none
      else
        let offset : Int := hours * 60 + minutes
        some (some (if sign = '-' then -offset else offset))
    else none

def readTime? (date : Date) (t : Text) : Option Moment := do
  let rest ← match t with
    | c :: rest =>
      if c = 'T' || c = 't' then some rest
      else if c = ' ' || c = '\t' then
        some (rest.dropWhile fun (c : CodePoint) => c = ' ' || c = '\t')
      else none
    | [] => none
  let (hour, rest) ← takeDigits? 1 2 rest
  let (minute, rest) ← takeDigits? 2 2 (← takeChar? ':' rest)
  let (second, rest) ← takeDigits? 2 2 (← takeChar? ':' rest)
  let (places, rest) := match rest with
    | .char '.' :: rest => (rest.takeWhile CodePoint.isDigit, rest.dropWhile CodePoint.isDigit)
    | rest => ([], rest)
  let offset ← readOffset? rest
  return ⟨date, hour, minute, second, readMicros places, offset⟩

inductive Timestamp
  | date (date : Date)
  | moment (moment : Moment)
deriving DecidableEq, Repr

def parseTimestamp? (t : Text) : Option Timestamp := do
  let (year, rest) ← takeDigits? 4 4 t
  let (month, rest) ← takeDigits? 1 2 (← takeChar? '-' rest)
  let (day, rest) ← takeDigits? 1 2 (← takeChar? '-' rest)
  let date : Date := ⟨year, month, day⟩
  match rest with
  | [] => return .date date
  | rest => return .moment (← readTime? date rest)

/-- The date or moment that a text is.  A newline at the very end is passed
over. -/
def readTimestamp (t : Text) : Except Fault Timestamp :=
  match parseTimestamp? (if t.getLast? = some (.char '\n') then t.dropLast else t) with
  | none => .error .notMoment
  | some (.date d) => d.check.map .date
  | some (.moment m) => m.check.map .moment

end Scalar
end SchemaLedger
