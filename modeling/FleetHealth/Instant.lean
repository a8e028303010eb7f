/-!
# Instants of the calendar

An instant is a UTC second and the nanoseconds within it, inside the years -262143 to 262142. A leap
second is written as the second before it with more than a billion nanoseconds. Instants are ordered
by second, then by nanosecond.
-/
namespace FleetHealth

def nanosPerSecond : Int := 1000000000

/-- First second of the calendar: -262143-01-01T00:00:00Z. -/
def firstSecond : Int := -8334601228800

/-- Last second of the calendar: +262142-12-31T23:59:59Z. -/
def lastSecond : Int := 8210266876799

/-- Whether a second and its nanoseconds make an instant: inside the calendar, and past a billion
nanoseconds only in the last second of a minute. -/
def IsInstant (second : Int) (nano : Nat) : Prop :=
  firstSecond ≤ second ∧ second ≤ lastSecond ∧
    (nano < 1000000000 ∨ (nano < 2000000000 ∧ second % 60 = 59))

instance (second : Int) (nano : Nat) : Decidable (IsInstant second nano) :=
  inferInstanceAs (Decidable (_ ∧ _ ∧ _))

structure Instant where
  second : Int
  nano : Nat
  valid : IsInstant second nano
  deriving DecidableEq

namespace Instant

/-- The instant at a second and nanoseconds, if there is one. -/
def ofSecond? (second : Int) (nano : Nat) : Option Instant :=
  if h : IsInstant second nano then some ⟨second, nano, h⟩ else none

def first : Instant := ⟨firstSecond, 0, by decide⟩

/-- 1970-01-01T00:00:00Z. -/
def epoch : Instant := ⟨0, 0, by decide⟩

instance : Inhabited Instant := ⟨epoch⟩

instance : Ord Instant where
  compare a b := (compare a.second b.second).then (compare a.nano b.nano)

instance : LE Instant := ⟨fun a b => (compare a b).isLE⟩

instance (a b : Instant) : Decidable (a ≤ b) :=
  inferInstanceAs (Decidable ((compare a b).isLE = true))

/-- Whether the instant lies within a leap second. -/
def inLeap (t : Instant) : Bool := 1000000000 ≤ t.nano

/-- Position on the line of nanoseconds since the epoch. -/
def linear (t : Instant) : Int := t.second * nanosPerSecond + t.nano

/-- The instant at a position on the line of nanoseconds, if it lies in the calendar. -/
def ofLinear? (nanos : Int) : Option Instant :=
  ofSecond? (nanos / nanosPerSecond) (nanos % nanosPerSecond).toNat

/-- Whole milliseconds since the epoch, rounded down. -/
def millis (t : Instant) : Int := t.second * 1000 + t.nano / 1000000

def ofMillis? (ms : Int) : Option Instant := ofLinear? (ms * 1000000)

/-- The instant `nanos` nanoseconds later, if it lies in the calendar. A move that stays within a
leap second keeps it; one that leaves it forward does not count it. -/
def shift? (t : Instant) (nanos : Int) : Option Instant :=
  let seconds := nanos.tdiv nanosPerSecond
  let part := nanos.tmod nanosPerSecond
  if t.inLeap then
    if 0 < seconds ∨ (0 < part ∧ 2 * nanosPerSecond ≤ t.nano + part) then
      ofLinear? (t.linear - nanosPerSecond + nanos)
    else if seconds < 0 then ofLinear? (t.linear + nanos)
    else ofSecond? t.second (t.nano + part).toNat
  else ofLinear? (t.linear + nanos)

def secondOfDay (t : Instant) : Int := t.second % 86400

/-- Nanoseconds from `u` to `t`. A leap second counts where the time of day passes over it. -/
def since (t u : Instant) : Int :=
  let leap : Int :=
    if u.secondOfDay < t.secondOfDay ∧ u.inLeap then 1
    else if t.secondOfDay < u.secondOfDay ∧ t.inLeap then -1
    else 0
  (t.second - u.second + leap) * nanosPerSecond + (t.nano - u.nano)

/-- Whole milliseconds from `u` to `t`, rounded toward zero. -/
def millisSince (t u : Instant) : Int := (t.since u).tdiv 1000000

end Instant

end FleetHealth
