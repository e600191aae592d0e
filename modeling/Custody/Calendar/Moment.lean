import Custody.Calendar.Date
import Custody.Text.CodePoint

/-! Instants of the years 1 to 9999 in universal time, and the ways in which they are written. -/
namespace Custody

def microsPerSecond : Nat := 1000000

def microsPerDay : Nat := 86400 * microsPerSecond

/-- An instant: microseconds since the start of year 1. -/
structure Moment where
  micros : Nat
  micros_lt : micros < Date.dayCount * microsPerDay
deriving DecidableEq, Repr

namespace Moment

def ofMicros? (n : Int) : Option Moment :=
  if h : 0 ≤ n ∧ n.toNat < Date.dayCount * microsPerDay then some ⟨n.toNat, h.2⟩ else none

instance : Inhabited Moment := ⟨⟨0, by decide⟩⟩

def epochDay : Nat := 719162

/-- Microseconds since the start of 1970. -/
def sinceEpoch (m : Moment) : Int := (m.micros : Int) - epochDay * microsPerDay

def date (m : Moment) : Date := Date.ofDay (m.micros / microsPerDay)

def hour (m : Moment) : Nat := m.micros / (3600 * microsPerSecond) % 24

def minute (m : Moment) : Nat := m.micros / (60 * microsPerSecond) % 60

def second (m : Moment) : Nat := m.micros / microsPerSecond % 60

def microsecond (m : Moment) : Nat := m.micros % microsPerSecond

def two (n : Nat) : Text := Text.ofNatPadded 2 n

def monthDay (d : Date) : Text := "-" ++ two d.month ++ "-" ++ two d.day

/-- The time of day with a separator between its parts. -/
def timeOfDay (sep : Text) (m : Moment) : Text :=
  two m.hour ++ sep ++ two m.minute ++ sep ++ two m.second

/-- Milliseconds and a closing `Z`; the year has as many digits as it needs. -/
def isoMillis (m : Moment) : Text :=
  Text.ofNat m.date.year ++ monthDay m.date ++ "T" ++ m.timeOfDay ":" ++ "."
    ++ Text.ofNatPadded 3 (m.microsecond / 1000) ++ "Z"

/-- Four digits for the year, microseconds only when there are any, and the offset of universal time. -/
def iso (m : Moment) : Text :=
  Text.ofNatPadded 4 m.date.year ++ monthDay m.date ++ "T" ++ m.timeOfDay ":"
    ++ (if m.microsecond = 0 then [] else "." ++ Text.ofNatPadded 6 m.microsecond : Text) ++ "+00:00"

/-- The form that stands in file names. -/
def stamp (m : Moment) : Text :=
  Text.ofNat m.date.year ++ monthDay m.date ++ "_" ++ m.timeOfDay [] ++ "_"
    ++ Text.ofNatPadded 6 m.microsecond

end Moment

end Custody
