import Custody.Calendar.Moment
import Custody.Failure
import Custody.Text.Utf8

/-! Times of day on a date, with or without an offset from universal time, and their reading. -/
namespace Custody

/-- A local time in microseconds since the start of year 1, and its offset from universal time. -/
structure Timestamp where
  localMicros : Nat
  offset : Option Int
deriving DecidableEq, Repr, Inhabited

namespace Timestamp

/-- The instant that a time stamp denotes; without an offset it is in universal time. -/
def instant (t : Timestamp) : Int := (t.localMicros : Int) - t.offset.getD 0

/-- The moment of a time stamp, unless it falls out of the calendar. -/
def toUtc (t : Timestamp) : Except Failure Moment :=
  match Moment.ofMicros? t.instant with
  | some m => .ok m
  | none => .error .overflow

def isDigit (b : UInt8) : Bool := 48 ≤ b.toNat && b.toNat ≤ 57

def byte (c : Char) : UInt8 := UInt8.ofNat c.toNat

/-- Continues a number by exactly `count` digits. -/
def digits? (value : Nat) : (count : Nat) → Bytes → Option (Nat × Bytes)
  | 0, t => some (value, t)
  | _ + 1, [] => none
  | n + 1, b :: t => if isDigit b then digits? (10 * value + (b.toNat - 48)) n t else none

/-- The end of a text, or a zero byte, which counts as one. -/
def atEnd : Bytes → Bool
  | [] => true
  | b :: _ => b = 0

/-- A fraction of a second: six digits count, fewer are filled up, more are skipped. -/
def fraction? (t : Bytes) : Option (Nat × Bool) := do
  let count := min 6 t.length
  let (n, rest) ← digits? 0 count t
  return (n * Nat.pow 10 (6 - count), atEnd (rest.dropWhile isDigit))

/-- A time of day: hours, minutes, seconds and microseconds. -/
structure Clock where
  units : List Nat
  micros : Nat

/-- The time of day in microseconds. -/
def Clock.total (c : Clock) : Nat :=
  (c.units.getD 0 0 * 3600 + c.units.getD 1 0 * 60 + c.units.getD 2 0) * microsPerSecond + c.micros

def Clock.isValid (c : Clock) : Bool :=
  c.units.getD 0 0 < 24 && c.units.getD 1 0 < 60 && c.units.getD 2 0 < 60

def Clock.cons (n : Nat) (c : Clock) : Clock := { c with units := n :: c.units }

/-- Two-digit units and a fraction. What follows the hours decides whether colons stand between the
units. The flag tells whether the text was used up; a single character after a unit is left over. -/
def clock? (colons : Option Bool) : (left : Nat) → Bytes → Option (Clock × Bool)
  | 0, t => do
    let (us, done) ← fraction? t
    return (⟨[], us⟩, done)
  | n + 1, t => do
    let (v, t) ← digits? 0 2 t
    match t with
    | [] => return (⟨[v], 0⟩, true)
    | c :: rest =>
      let separated := colons.getD (c = byte ':')
      if rest = [] then return (⟨[v], 0⟩, c = 0)
      else if separated && c = byte ':' then
        let (k, done) ← clock? (some separated) n rest
        return (k.cons v, done)
      else if c = byte '.' || c = byte ',' then
        let (us, done) ← fraction? rest
        return (⟨[v], us⟩, done)
      else if separated then none
      else
        let (k, done) ← clock? (some separated) n (c :: rest)
        return (k.cons v, done)

def isZoneMark (b : UInt8) : Bool := b = byte '+' || b = byte '-' || b = byte 'Z'

/-- An offset is less than a day; one without whole seconds is none. -/
def offset? (negative : Bool) (c : Clock) : Option Int :=
  if c.total - c.micros = 0 then some 0
  else if microsPerDay ≤ c.total then none
  else some (if negative then -(c.total : Int) else c.total)

/-- A time of day and the offset behind it. -/
def time? (t : Bytes) : Option (Clock × Option Int) := do
  let (body, zone) := t.span (!isZoneMark ·)
  let (c, done) ← clock? none 3 body
  match zone with
  | [] => if done then return (c, none) else none
  | z :: rest =>
    if z = byte 'Z' then (if atEnd rest then return (c, some 0) else none)
    else
      let (o, done) ← clock? none 3 rest
      if done then return (c, some (← offset? (z = byte '-') o)) else none

/-- A date by year, month and day, or by year, week and day of the week, with hyphens or without. -/
def date? (t : Bytes) : Option Date := do
  let (year, t) ← digits? 0 4 t
  let (hyphens, t) := match t with
    | c :: rest => if c = byte '-' then (true, rest) else (false, c :: rest)
    | [] => (false, [])
  let skip (t : Bytes) : Option Bytes :=
    if hyphens then (match t with
      | c :: rest => if c = byte '-' then some rest else none
      | [] => none)
    else some t
  match t with
  | [] => none
  | c :: rest =>
    if c = byte 'W' then
      let (week, t) ← digits? 0 2 rest
      if t = [] then Date.ofWeek? year week 1
      else
        let (day, _) ← digits? 0 1 (← skip t)
        Date.ofWeek? year week day
    else
      let (month, t) ← digits? 0 2 (c :: rest)
      let (day, t) ← digits? 0 2 (← skip t)
      if t = [] then some ⟨year, month, day⟩ else none

/-- How many bytes belong to the date. The fifth to eleventh bytes tell its form. -/
def dateLength? (t : Bytes) : Option Nat :=
  let at' (i : Nat) : UInt8 := t.getD i 0
  if t.length = 7 then some 7
  else if at' 4 = byte '-' then
    if at' 5 = byte 'W' then
      if t.length < 8 then none
      else if 8 < t.length ∧ at' 8 = byte '-' then
        if t.length = 9 then none
        else if 10 < t.length ∧ isDigit (at' 10) then some 8
        else some 10
      else some 8
    else some 10
  else if at' 4 = byte 'W' then
    let pos := 7 + ((t.drop 7).takeWhile isDigit).length
    if pos < 9 then some pos
    else if pos % 2 = 0 then some 7 else some 8
  else some 8

/-- A surrogate may stand between date and time. -/
def replaceSeparator (t : Text) : Text :=
  match [7, 8, 10].find? fun i => (t[i]?).any CodePoint.isSurrogate with
  | some i => t.set i ('T' : CodePoint)
  | none => t

/-- The bytes after the separator, which is one character of any kind. -/
def afterSeparator : Bytes → Option Bytes
  | [] => none
  | b :: rest =>
    if b.toNat < 0x80 then some rest
    else if b.toNat / 16 = 14 then some (rest.drop 2)
    else if b.toNat / 16 = 15 then some (rest.drop 3)
    else some (rest.drop 1)

/-- Reads a date, or a date and a time, in the basic and extended forms of the ISO standard. -/
def read? (t : Text) : Option Timestamp := do
  if t.length < 7 then none
  else
    let b ← Utf8.encode? (replaceSeparator t)
    let n ← dateLength? b
    let d ← date? (b.take n)
    let (c, o) ← match afterSeparator (b.drop n) with
      | none => some (⟨[], 0⟩, none)
      | some rest => time? rest
    if d.isValid && c.isValid then
      return ⟨d.toDay * microsPerDay + c.total, o⟩
    else none

def read (t : Text) : Except Failure Timestamp :=
  match read? t with
  | some s => .ok s
  | none => .error .badValue

end Timestamp

end Custody
