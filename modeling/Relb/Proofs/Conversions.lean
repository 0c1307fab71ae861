import Relb.Model.Tasks
import Relb.Proofs.ConfigFields
/-!
# Seconds and milliseconds

The retry time and the intervals of the tasks are configured in seconds and used in milliseconds,
as products of an `int`. Nothing but zero is rejected when they are read, so a product may be cut,
and then it can be of either sign, or zero.
-/

namespace Relb

open ConfigLine.Sample (quadEnv)

variable {env : Env} {c : AppConfig} {clock : Clock} {s : List Char} {v : Int}

/-- The tags of the lines with a number of seconds. -/
inductive SecondsTag
  | retryserver
  | task
  deriving DecidableEq

namespace SecondsTag

/-- Where `atoi` reads the interval of a task. -/
def intervalText (s : List Char) : List Char := nextWord (skipBlanks s)

/-- The tests of a task line: it has an interval, or a valid first run to come. -/
def TaskAccepted (env : Env) (clock : Clock) (s : List Char) : Prop :=
  let first := nextWord (intervalText s)
  if first = [] then 0 < atoi (intervalText s)
  else env.isvalid (firstRunOf env clock first) = true ∧
    (firstRunOf env clock first < clock.nowUtc → 0 < atoi (intervalText s))

/-- The line is accepted, and configures `v` seconds. -/
def Configures (env : Env) (clock : Clock) (s : List Char) (v : Int) : SecondsTag → Prop
  | retryserver => v = if atoi (skipBlanks s) = 0 then 30 else atoi (skipBlanks s)
  | task => TaskAccepted env clock s ∧ v = atoi (intervalText s)

/-- A server that has failed is not available for `seconds`. -/
structure RetryKept (seconds : Int) : Prop where
  product : ∀ list : ServerList,
    (list.setServerRetry seconds).serverRetryMilliseconds = 1000 * seconds
  unavailable : ∀ (list : ServerList) (srv : ServerInfo) (now : Datetime),
    srv.lastConnectionFailed = true →
      (srv.inRetry (list.setServerRetry seconds).serverRetryMilliseconds now = true ↔
        now - srv.lastConnectionAttempt < 1000 * seconds)

/-- The products of an interval, where the code uses them: a first run that has gone by moves on, a
task without one is added, and a task that has run is due later. -/
structure IntervalKept (interval : Int) : Prop where
  product : intPeriod interval = 1000 * interval
  caughtUp : ∀ now firstRun : Datetime, catchUp now interval firstRun =
    .ok (firstRun + ((now - firstRun).tdiv (1000 * interval) + 1) * (1000 * interval))
  added : ∀ (l : TaskList) (taskType : TaskType) (now : Datetime),
    (l.addTask taskType interval now).tasksList =
      l.tasksList ++ [⟨taskType, interval, now + 1000 * interval, false⟩]
  rescheduled : ∀ (t : Task) (now : Datetime), t.runIntervalSeconds = interval →
    t.nextRunTime ≤ now → ∃ next, t.reschedule intPeriod now = some next ∧ now < next

/-- The line is processed, and what it configures is kept. -/
def Kept (env : Env) (c : AppConfig) (clock : Clock) (s : List Char) (v : Int) : SecondsTag → Prop
  | retryserver =>
      c.processConfigLine env ⟨"retryserver:".toList ++ s, clock⟩ =
          .ok { c with minimumServerReconnectionTime := v } ∧
        RetryKept v
  | task =>
      (∃ t : TaskInfo, t.runIntervalSeconds = v ∧
          c.processConfigLine env ⟨"task:".toList ++ s, clock⟩ =
            .ok (c.onLastBind fun b => { b with tasks := b.tasks ++ [t] })) ∧
        (0 < v → IntervalKept v)

/-- The products fit. A task without an interval has none. -/
def Fits (v : Int) : SecondsTag → Prop
  | retryserver => -2147483 ≤ v ∧ v ≤ 2147483
  | task => v ≤ 2147483

/-! ## The retry time -/

theorem retryKept_iff : RetryKept v ↔ -2147483 ≤ v ∧ v ≤ 2147483 := by
  have hset : ∀ list : ServerList,
      (list.setServerRetry v).serverRetryMilliseconds = toInt (1000 * v) := fun list =>
    congrArg toInt (Int.mul_comm v 1000)
  rw [← toInt_milliseconds_iff]
  constructor
  · intro h
    exact (hset (.create 0)).symm.trans (h.product (.create 0))
  · intro h
    constructor
    case product => exact fun list => (hset list).trans h
    case unavailable =>
      intro list srv now hfailed
      rw [hset, h, ServerInfo.inRetry, hfailed]
      simp

/-! ## Intervals -/

theorem intervalKept_iff (hv : 0 < v) : IntervalKept v ↔ v ≤ 2147483 := by
  constructor
  · intro h
    exact (toInt_milliseconds_iff.mp h.product).2
  · intro h
    have hproduct : toInt (1000 * v) = 1000 * v := toInt_milliseconds_iff.mpr ⟨by omega, h⟩
    have hperiod : (0 : Int) < 1000 * v := by omega
    constructor
    case product => exact hproduct
    case caughtUp =>
      intro now firstRun
      unfold catchUp
      rw [hproduct]
      exact if_neg (Int.ne_of_gt hperiod)
    case added =>
      intro l taskType now
      unfold TaskList.addTask TaskList.add
      rw [hproduct]
    case rescheduled =>
      rintro t now rfl hdue
      unfold Task.reschedule
      rw [show intPeriod t.runIntervalSeconds = 1000 * t.runIntervalSeconds from hproduct]
      by_cases hfixed : t.fixedTime = true
      · rw [if_pos hfixed, if_pos hdue, if_neg (Int.ne_of_gt hperiod)]
        refine ⟨_, rfl, ?_⟩
        rw [Int.tdiv_eq_ediv_of_nonneg (Int.sub_nonneg_of_le hdue)]
        exact Int.lt_add_of_sub_left_lt (Int.lt_ediv_add_one_mul_self (now - t.nextRunTime) hperiod)
      · rw [if_neg hfixed]
        exact ⟨_, rfl, Int.lt_add_of_pos_right now hperiod⟩

/-- Apart from its products, a task line does what its tests say. -/
theorem taskOf_of_accepted (h : TaskAccepted env clock s)
    (hfits : atoi (intervalText s) ≤ 2147483) :
    ∃ t : TaskInfo, t.runIntervalSeconds = atoi (intervalText s) ∧
      taskOf env clock s = .ok (some t) := by
  have hline : taskOf env clock s =
      if nextWord (intervalText s) = [] then
        .ok (if atoi (intervalText s) ≤ 0 then none
          else some ⟨taskTypeOf (skipBlanks s), atoi (intervalText s),
            clock.nowUtc + atoi (intervalText s), false⟩)
      else
        let firstRun := firstRunOf env clock (nextWord (intervalText s))
        if !env.isvalid firstRun then .ok none
        else if firstRun < clock.nowUtc then
          if 0 < atoi (intervalText s) then
            (catchUp clock.nowUtc (atoi (intervalText s)) firstRun).map fun next =>
              some ⟨taskTypeOf (skipBlanks s), atoi (intervalText s), next, true⟩
          else .ok none
        else .ok (some ⟨taskTypeOf (skipBlanks s), atoi (intervalText s), firstRun, true⟩) := rfl
  rw [hline]
  unfold TaskAccepted at h
  dsimp only at h ⊢
  split at h
  · rename_i hfirst
    rw [if_pos hfirst, if_neg (Int.not_le.mpr h)]
    exact ⟨_, rfl, rfl⟩
  · rename_i hfirst
    obtain ⟨hvalid, hpassed⟩ := h
    rw [if_neg hfirst, hvalid, if_neg (by decide)]
    split
    · rename_i hpast
      have hinterval := hpassed hpast
      rw [if_pos hinterval, ((intervalKept_iff hinterval).mpr hfits).caughtUp]
      exact ⟨_, rfl, rfl⟩
    · exact ⟨_, rfl, rfl⟩

/-! ## The lines -/

/-- What a line configures is kept exactly if its products fit. -/
theorem kept_iff {tag : SecondsTag} (hconfigures : tag.Configures env clock s v) :
    tag.Kept env c clock s v ↔ tag.Fits v := by
  cases tag with
  | retryserver =>
      have hline : c.processConfigLine env ⟨"retryserver:".toList ++ s, clock⟩ =
          .ok { c with minimumServerReconnectionTime := v } := by
        rw [AppConfig.processConfigLine_retry, AppConfig.processRetry, afterTag_self, hconfigures]
      exact (and_iff_right hline).trans retryKept_iff
  | task =>
      obtain ⟨haccepted, rfl⟩ := hconfigures
      constructor
      · rintro ⟨-, hkept⟩
        change atoi (intervalText s) ≤ 2147483
        by_cases hinterval : 0 < atoi (intervalText s)
        · exact (intervalKept_iff hinterval).mp (hkept hinterval)
        · omega
      · intro hfits
        refine ⟨?_, fun hinterval => (intervalKept_iff hinterval).mpr hfits⟩
        obtain ⟨t, ht, hline⟩ := taskOf_of_accepted haccepted hfits
        refine ⟨t, ht, ?_⟩
        rw [AppConfig.processConfigLine_task, AppConfig.processTask, afterTag_self]
        dsimp only
        rw [hline]
        rfl

/-- A minute. -/
theorem kept_iff_minute : retryserver.Kept quadEnv (.create "") ⟨0, 0⟩ " 60".toList 60 := by
  have hconfigures : retryserver.Configures quadEnv ⟨0, 0⟩ " 60".toList 60 := by
    unfold Configures
    decide +kernel
  exact (kept_iff hconfigures).mpr ⟨by decide, by decide⟩

/-- Thirty days between two runs, and the product is below zero. -/
theorem month_cut : task.Configures quadEnv ⟨0, 0⟩ " purge 2592000".toList 2592000 ∧
    intPeriod 2592000 = -1702967296 ∧
    ¬task.Kept quadEnv (.create "") ⟨0, 0⟩ " purge 2592000".toList 2592000 := by
  have hproduct : intPeriod 2592000 = -1702967296 := by decide +kernel
  refine ⟨⟨?_, by decide +kernel⟩, hproduct, fun hkept => ?_⟩
  · unfold TaskAccepted
    decide +kernel
  · have hexact := (hkept.2 (by decide)).product
    rw [hproduct] at hexact
    exact absurd hexact (by decide)

end SecondsTag

end Relb
