import Readout.Link.Basic
/-!
# Timers

The timers of a host are coarser than its clock.  Time is cut into granules, from the start of the
clock on, and a timer fires at the first end of a granule that is not before the time it was set for:
never early, and late by less than a granule.  What the library relies on is that a granule divides a
millisecond; on most hosts it is one (`coarse`).

* `Timer.fires` is the time at which a timer fires, `fires_le_iff` characterises it among the ends of
  granules.
-/

namespace Readout

theorem Duration.milliseconds_dvd_seconds (n : Nat) :
    Duration.milliseconds 1 ∣ Duration.seconds n :=
  ⟨n * 1000, by simp only [Duration.milliseconds, Duration.seconds]; omega⟩

/-- The timers of a host. -/
structure Timer where
  granule : Duration
  pos : 0 < granule
  divides : granule ∣ Duration.milliseconds 1

namespace Timer

/-- Timers that fire at whole milliseconds. -/
def coarse : Timer where
  granule := Duration.milliseconds 1
  pos := by decide
  divides := Nat.dvd_refl _

/-- The time at which a timer fires that was set for a time. -/
def fires (t : Timer) (time : Nat) : Nat := (time + t.granule - 1) / t.granule * t.granule

variable (t : Timer)

theorem granule_dvd_seconds (n : Nat) : t.granule ∣ Duration.seconds n :=
  Nat.dvd_trans t.divides (Duration.milliseconds_dvd_seconds n)

theorem granule_dvd_fires (time : Nat) : t.granule ∣ t.fires time := Nat.dvd_mul_left _ _

variable {t} {time n : Nat}

/-- A timer fires at the first end of a granule that is not before its time. -/
theorem fires_le_iff (h : t.granule ∣ n) : t.fires time ≤ n ↔ time ≤ n := by
  obtain ⟨k, rfl⟩ := h
  have hpos : (0 : Nat) < t.granule := t.pos
  rw [fires, Nat.mul_comm t.granule k, Nat.mul_le_mul_right_iff hpos, ← Nat.lt_succ_iff,
    Nat.div_lt_iff_lt_mul hpos, Nat.succ_mul]
  omega

variable (t) in
/-- A timer is never early. -/
theorem le_fires (time : Nat) : time ≤ t.fires time :=
  (fires_le_iff (t.granule_dvd_fires time)).1 (Nat.le_refl _)

/-- A timer that was set for the end of a granule is on time. -/
theorem fires_of_dvd (h : t.granule ∣ time) : t.fires time = time :=
  Nat.le_antisymm ((fires_le_iff h).2 (Nat.le_refl _)) (t.le_fires time)

end Timer

end Readout
