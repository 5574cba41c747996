import Mathlib

/-!
# Instants

An instant counts nanoseconds from the epoch. Queue metadata keeps whole
milliseconds of it; a `timestamptz` column keeps whole microseconds, to which
the database driver rounds.
-/

namespace OpenVoxDB

abbrev Instant := Int

namespace Instant

/-- Epoch milliseconds, rounded down. -/
def toLong (t : Int) : Int := t / 1000000

def fromLong (ms : Int) : Int := ms * 1000000

/-- The value a `timestamptz` column holds once `t` has been written to it. -/
def toTimestamptz (t : Int) : Int := (t + 500) / 1000 * 1000

theorem toTimestamptz_mono {t u : Int} (h : t ≤ u) : toTimestamptz t ≤ toTimestamptz u := by
  simp only [toTimestamptz]
  omega

/-- Rounding to microseconds never crosses a whole millisecond. -/
theorem toTimestamptz_le_of_toLong_lt {t u : Int} (h : toLong t < toLong u) :
    toTimestamptz t ≤ u := by
  simp only [toTimestamptz, toLong] at *
  omega

theorem lt_toTimestamptz_of_toLong_lt {t u : Int} (h : toLong t < toLong u) :
    t < toTimestamptz u := by
  simp only [toTimestamptz, toLong] at *
  omega

/-- Times with different stored values are on the same side of each other's stored value. -/
theorem lt_toTimestamptz_of_toTimestamptz_lt {t u : Int} (h : toTimestamptz t < toTimestamptz u) :
    t < toTimestamptz u := by
  simp only [toTimestamptz] at *
  omega

theorem toTimestamptz_lt_of_toTimestamptz_lt {t u : Int} (h : toTimestamptz t < toTimestamptz u) :
    toTimestamptz t < u := by
  simp only [toTimestamptz] at *
  omega

/-- A stored value that is no later than a time is no later than the time's own. -/
theorem le_toTimestamptz_of_le {t u : Int} (h : toTimestamptz t ≤ u) :
    toTimestamptz t ≤ toTimestamptz u := by
  simp only [toTimestamptz] at *
  omega

theorem toTimestamptz_le_of_le {t u : Int} (h : u ≤ toTimestamptz t) :
    toTimestamptz u ≤ toTimestamptz t := by
  simp only [toTimestamptz] at *
  omega

end Instant

end OpenVoxDB
