import Mathlib.Order.Bounds.Basic
import Relb.Lib.Grid
import Relb.Proofs.Dates
/-!
# Times of day

A task line may give its first run as a local time only. The code puts that time on the day of the
UTC clock and takes the offset off afterwards, so that it is the day of another zone that the task
starts on, and only a first run in the past moves on.
-/

namespace Relb

open Lib

variable {env : Env} {clock : Clock} {c : AppConfig} {taskType : List Char}
  {hour min sec : Nat} {now off tod first : Int}

def msPerDay : Int := 86400000

theorem msPerDay_pos : 0 < msPerDay := by decide

/-! ## The next local time -/

theorem isLeast_local_iff :
    IsLeast {x : Int | now ≤ x ∧ (x + off) % msPerDay = tod} first ↔
      (first + off) % msPerDay = tod ∧ now ≤ first ∧ first < now + msPerDay := by
  unfold msPerDay
  constructor
  · rintro ⟨⟨hnow, hlocal⟩, hleast⟩
    refine ⟨hlocal, hnow, ?_⟩
    -- a day earlier it would be the same time of day
    by_contra hfar
    have hearlier : first ≤ first - 86400000 := hleast ⟨by omega, by omega⟩
    omega
  · rintro ⟨hlocal, hnow, hfar⟩
    refine ⟨⟨hnow, hlocal⟩, ?_⟩
    rintro x ⟨hx, hxlocal⟩
    omega

/-- The first run as it is configured, on the day of the UTC clock. -/
def utcDayRun (now off tod : Int) : Int := now - now % msPerDay + tod - off

theorem utcDayRun_local (now off : Int) (htod : 0 ≤ tod ∧ tod < msPerDay) :
    (utcDayRun now off tod + off) % msPerDay = tod := by
  unfold utcDayRun msPerDay at *
  omega

/-- The first run that the task gets. -/
def firstRunFrom (now off tod : Int) : Int :=
  if utcDayRun now off tod < now then nextPoint msPerDay now (utcDayRun now off tod)
  else utcDayRun now off tod

theorem firstRunFrom_local (now off : Int) (htod : 0 ≤ tod ∧ tod < msPerDay) :
    (firstRunFrom now off tod + off) % msPerDay = tod ∧ now ≤ firstRunFrom now off tod := by
  have hgrid := utcDayRun_local now off htod
  unfold firstRunFrom
  split
  · obtain ⟨k, hk⟩ := dvd_nextPoint_sub msPerDay now (utcDayRun now off tod)
    have hlt := lt_nextPoint msPerDay_pos now (utcDayRun now off tod)
    unfold msPerDay at *
    omega
  · exact ⟨hgrid, by omega⟩

/-- The local day is that of the UTC clock, or the other day makes no difference. -/
def SameDayOr (now off tod : Int) : Prop :=
  (now + off) / msPerDay = now / msPerDay ∨
    ((now + off) / msPerDay < now / msPerDay ∧ tod < (now + off) % msPerDay) ∨
    (now / msPerDay < (now + off) / msPerDay ∧ tod ≠ (now + off) % msPerDay)

theorem firstRunFrom_lt_iff (htod : 0 ≤ tod ∧ tod < msPerDay)
    (hoff : -(14 * 3600000) ≤ off ∧ off ≤ 14 * 3600000) :
    firstRunFrom now off tod < now + msPerDay ↔ SameDayOr now off tod := by
  unfold firstRunFrom
  split
  · obtain ⟨k, hk⟩ := dvd_nextPoint_sub msPerDay now (utcDayRun now off tod)
    have hlt := lt_nextPoint msPerDay_pos now (utcDayRun now off tod)
    have hle := nextPoint_le msPerDay_pos now (utcDayRun now off tod)
    unfold SameDayOr
    unfold utcDayRun msPerDay at *
    omega
  · unfold SameDayOr
    unfold utcDayRun msPerDay at *
    omega

/-! ## Lines -/

def clockTime (hour min sec : Nat) : List Char :=
  twoDigits hour ++ ':' :: (twoDigits min ++ ':' :: twoDigits sec)

example : clockTime 8 0 30 = "08:00:30".toList := by decide

def timeOfDay (hour min sec : Nat) : Int := ((hour * 60 + min) * 60 + sec) * 1000

/-- `decodedate` and `encodedate` take an instant to its day and back, and `encodetime` counts from
midnight. -/
structure Env.IsCalendar (env : Env) (now : Datetime) : Prop where
  day : env.encodedate (env.decodedate now).1 (env.decodedate now).2.1 (env.decodedate now).2.2 =
    now - now % msPerDay
  time : ∀ {hour min sec : Nat}, hour < 24 → min < 60 → sec < 60 →
    env.encodetime hour min sec = timeOfDay hour min sec

def Clock.offset (clock : Clock) : Int := clock.nowLocaltime - clock.nowUtc

/-- The line is accepted with the first run `first`, which is the earliest instant from now on at
the local time of day, and at most a day ahead. -/
structure RunsNext (env : Env) (clock : Clock) (taskType : List Char) (hour min sec : Nat)
    (first : Datetime) : Prop where
  accepted : taskOf env clock (taskText taskType "86400".toList (clockTime hour min sec)) =
    .ok (some ⟨taskTypeOf taskType, 86400, first, true⟩)
  earliest : IsLeast {x : Int | clock.nowUtc ≤ x ∧
    (x + clock.offset) % msPerDay = timeOfDay hour min sec} first
  within : first ≤ clock.nowUtc + msPerDay

section Line

variable (hcalendar : env.IsCalendar clock.nowUtc) (hhour : hour < 24) (hmin : min < 60)
  (hsec : sec < 60)

include hhour hmin hsec in
theorem timeOfDay_lt : 0 ≤ timeOfDay hour min sec ∧ timeOfDay hour min sec < msPerDay := by
  unfold timeOfDay msPerDay
  omega

include hcalendar hhour hmin hsec

theorem timeOf_clockTime : timeOf env (clockTime hour min sec) = timeOfDay hour min sec := by
  have hcolon : ∀ {n : Nat}, n < 100 → ∀ rest, afterChar ':' (twoDigits n ++ ':' :: rest) = rest :=
    fun hn rest =>
      afterChar_field (fun c hc => ne_of_isDigit (isDigit_of_mem_twoDigits hn hc) rfl) rest
  have hlast : atoi (twoDigits sec) = sec := by
    simpa using atoi_twoDigits (n := sec) (by omega) endsNumber_nil
  unfold timeOf clockTime
  dsimp only
  rw [hcolon (by omega), hcolon (by omega), hlast, atoi_twoDigits (by omega) (endsNumber_cons rfl),
    atoi_twoDigits (by omega) (endsNumber_cons rfl), hcalendar.time hhour hmin hsec]

theorem firstRunOf_clockTime : firstRunOf env clock (clockTime hour min sec) =
    utcDayRun clock.nowUtc clock.offset (timeOfDay hour min sec) := by
  have hatoi : atoi (clockTime hour min sec) = hour :=
    atoi_twoDigits (by omega) (endsNumber_cons rfl)
  have hday := hcalendar.day
  unfold firstRunOf
  dsimp only
  rw [hatoi, if_pos (by omega), timeOf_clockTime hcalendar hhour hmin hsec]
  rw [hday]
  rfl

theorem taskOf_clockTime (htype : IsWord taskType)
    (hvalid : env.isvalid (firstRunOf env clock (clockTime hour min sec)) = true) :
    taskOf env clock (taskText taskType "86400".toList (clockTime hour min sec)) =
      .ok (some ⟨taskTypeOf taskType, 86400,
        firstRunFrom clock.nowUtc clock.offset (timeOfDay hour min sec), true⟩) := by
  have hinterval : atoi "86400".toList = 86400 := by decide +kernel
  have hword : IsWord "86400".toList := by decide
  have hfirst : ∃ d ∈ (clockTime hour min sec).head?, d.isDigit = true :=
    ⟨_, rfl, isDigit_of_mem_twoDigits (n := hour) (by omega) List.mem_cons_self⟩
  have hperiod : toInt (1000 * 86400) = msPerDay := by decide
  rw [taskOf_taskText htype hword hfirst, taskAt, hvalid, hinterval,
    firstRunOf_clockTime hcalendar hhour hmin hsec]
  unfold firstRunFrom
  split
  · rename_i hinvalid
    cases hinvalid
  · split
    · rename_i hpassed
      unfold catchUp
      rw [if_pos (by decide), hperiod, if_neg (by decide),
        Int.tdiv_eq_ediv_of_nonneg (Int.sub_nonneg_of_le (Int.le_of_lt hpassed))]
      rfl
    · rfl

/-- The first run of a daily task is the next such local time just if the local day is that of the
UTC clock, or the wrong day makes no difference. -/
theorem exists_runsNext_iff (htype : IsWord taskType)
    (hoffset : -(14 * 3600000) ≤ clock.offset ∧ clock.offset ≤ 14 * 3600000)
    (hvalid : env.isvalid (firstRunOf env clock (clockTime hour min sec)) = true) :
    (∃ first, RunsNext env clock taskType hour min sec first) ↔
      SameDayOr clock.nowUtc clock.offset (timeOfDay hour min sec) := by
  have htod := timeOfDay_lt hhour hmin hsec
  have hread := taskOf_clockTime hcalendar hhour hmin hsec htype hvalid
  obtain ⟨hlocal, hnow⟩ := firstRunFrom_local clock.nowUtc clock.offset htod
  rw [← firstRunFrom_lt_iff htod hoffset]
  constructor
  · rintro ⟨first, h⟩
    have hsame := h.accepted.symm.trans hread
    simp only [Except.ok.injEq, Option.some.injEq, TaskInfo.mk.injEq, and_true, true_and] at hsame
    rw [← hsame]
    exact (isLeast_local_iff.mp h.earliest).2.2
  · intro hfar
    exact ⟨_, hread, isLeast_local_iff.mpr ⟨hlocal, hnow, hfar⟩, Int.le_of_lt hfar⟩

end Line

namespace ConfigLine.Sample

/-- The calendar of January of the year 1, whose first day begins at 0. -/
def januaryEnv : Env :=
  { quadEnv with
    isvalid := fun t => decide (0 ≤ t)
    encodedate := fun _ _ day => (day - 1) * msPerDay
    encodetime := fun hour min sec => ((hour * 60 + min) * 60 + sec) * 1000
    decodedate := fun t => (1, 1, t / msPerDay + 1) }

theorem januaryEnv_isCalendar (now : Int) : januaryEnv.IsCalendar now := by
  constructor
  case day =>
    have hsplit := Int.mul_ediv_add_emod now msPerDay
    change (now / msPerDay + 1 - 1) * msPerDay = now - now % msPerDay
    rw [Int.add_sub_cancel, Int.mul_comm]
    omega
  case time => exact fun _ _ _ => rfl

/-- Three in the morning of the fifth in Greenwich, and ten in the evening five zones west. -/
def eveningBefore : Clock := ⟨356400000, 338400000⟩

/-- Ten in the morning in Greenwich, and eleven one zone east. -/
def lateMorning : Clock := ⟨381600000, 385200000⟩

end ConfigLine.Sample

open ConfigLine.Sample

/-- A daily task at noon, from eleven on. -/
theorem exists_runsNext_iff_noon :
    (∃ first, RunsNext januaryEnv lateMorning "clean".toList 12 0 0 first) ↔
      SameDayOr lateMorning.nowUtc lateMorning.offset (timeOfDay 12 0 0) :=
  exists_runsNext_iff (januaryEnv_isCalendar _) (by decide) (by decide) (by decide) (by decide)
    (by decide) (by decide +kernel)

/-- At ten in the evening a daily task at eleven is put off for a day and an hour. -/
theorem evening_task_put_off :
    januaryEnv.IsCalendar eveningBefore.nowUtc ∧
      taskOf januaryEnv eveningBefore
          (taskText "clean".toList "86400".toList (clockTime 23 0 0)) =
        .ok (some ⟨.cleanConnections, 86400, eveningBefore.nowUtc + msPerDay + 3600000, true⟩) ∧
      ¬∃ first, RunsNext januaryEnv eveningBefore "clean".toList 23 0 0 first := by
  have hread : taskOf januaryEnv eveningBefore
      (taskText "clean".toList "86400".toList (clockTime 23 0 0)) =
        .ok (some ⟨.cleanConnections, 86400, eveningBefore.nowUtc + msPerDay + 3600000, true⟩) := by
    decide +kernel
  refine ⟨januaryEnv_isCalendar _, hread, ?_⟩
  rintro ⟨first, h⟩
  have hsame := h.accepted.symm.trans hread
  simp only [Except.ok.injEq, Option.some.injEq, TaskInfo.mk.injEq, and_true, true_and] at hsame
  have hwithin := h.within
  rw [hsame.2] at hwithin
  exact absurd hwithin (by decide)

end Relb
