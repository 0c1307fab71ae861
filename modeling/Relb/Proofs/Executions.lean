import Relb.Lib.Grid
import Relb.Lib.Keyed
import Relb.Lib.Runs
import Relb.Proofs.Narrowing
import Relb.Proofs.Tasks
/-!
# The executions of a run

Every pass writes down what it executes and when. Whatever the clock shows from pass to pass, a
periodic task has been executed at most once for each of its periods since its first run, a one-time
task once, and nothing that has not been added.
-/

namespace Relb

open Lib

variable {t t₀ u : Task} {now : Datetime} {tasks : List Task}

namespace Task

/-- The interval has milliseconds that fit in an `int`. -/
def Fits (t : Task) : Prop := t.runIntervalSeconds ≤ 2147483

instance : DecidablePred Fits := fun t =>
  inferInstanceAs (Decidable (t.runIntervalSeconds ≤ 2147483))

theorem intPeriod_eq (hfits : t.Fits) (hperiodic : t.isOneTime = false) :
    intPeriod t.runIntervalSeconds = 1000 * t.runIntervalSeconds := by
  have hinterval : ¬t.runIntervalSeconds ≤ 0 := of_decide_eq_false hperiodic
  unfold Fits at hfits
  exact toInt_of_lt (by omega) (by omega)

theorem add_period_le_after (hfits : t.Fits) (hdue : t.isDue now = true)
    (hperiodic : t.isOneTime = false) :
    t.nextRunTime + 1000 * t.runIntervalSeconds ≤ t.after intPeriod now := by
  have hdue' : t.nextRunTime ≤ now := of_decide_eq_true hdue
  have hms : 0 < 1000 * t.runIntervalSeconds := by
    have hinterval := of_decide_eq_false hperiodic
    omega
  rw [after, hdue, hperiodic, if_pos (by decide), reschedule, intPeriod_eq hfits hperiodic]
  by_cases hfixed : t.fixedTime = true
  · rw [if_pos hfixed, if_pos hdue', if_neg (Int.ne_of_gt hms), Option.getD_some,
      Int.tdiv_eq_ediv_of_nonneg (Int.sub_nonneg_of_le hdue')]
    exact add_le_nextPoint hms hdue'
  · rw [if_neg hfixed, Option.getD_some]
    exact Int.add_le_add_right hdue' _

/-- The time of the next execution aside, the task is `t₀`. -/
def IsConfigured (t t₀ : Task) : Prop := { t with nextRunTime := t₀.nextRunTime } = t₀

namespace IsConfigured

theorem refl (t : Task) : t.IsConfigured t := rfl

theorem addr_eq (h : t.IsConfigured t₀) : t.addr = t₀.addr := by
  unfold IsConfigured at h
  rw [← h]

theorem interval_eq (h : t.IsConfigured t₀) : t.runIntervalSeconds = t₀.runIntervalSeconds := by
  unfold IsConfigured at h
  rw [← h]

theorem isOneTime_eq (h : t.IsConfigured t₀) : t.isOneTime = t₀.isOneTime := by
  unfold isOneTime
  rw [h.interval_eq]

theorem fits (h : t.IsConfigured t₀) (hfits : t₀.Fits) : t.Fits := by
  unfold Fits at *
  rwa [h.interval_eq]

theorem handled (h : t.IsConfigured t₀) (now : Datetime) :
    (t.handled intPeriod now).IsConfigured t₀ := h

end IsConfigured

end Task

/-! ## The log -/

namespace Scheduler

/-- A scheduler, with what it has executed, and the clock values of the passes. -/
structure Logged where
  scheduler : Scheduler
  log : List (Datetime × Task)

def executed (op : Op) (s s' : Scheduler) : List (Datetime × Task) :=
  match op with
  | .executeTasks now => (s'.pass.ran.drop s.pass.ran.length).map (now, ·)
  | .wait _ _ => []

def Logged.record (x : Logged) (op : Op) : Option Logged :=
  match x.scheduler.perform op with
  | .ok s => some ⟨s, x.log ++ executed op x.scheduler s⟩
  | .error _ => none

theorem record_spec {x y : Logged} {op : Op} (h : x.record op = some y) :
    x.scheduler.perform op = .ok y.scheduler ∧
      y.log = x.log ++ executed op x.scheduler y.scheduler := by
  unfold Logged.record at h
  split at h
  · rename_i s hs
    obtain rfl := Option.some.inj h
    exact ⟨hs, rfl⟩
  · cases h

/-- When the task of an address has been executed. -/
def timesOf (addr : Ptr) (log : List (Datetime × Task)) : List Datetime :=
  (log.filter fun e => e.2.addr == addr).map Prod.fst

/-- A pass executes the tasks that are due, or it does not take place. -/
theorem executed_cases {s s' : Scheduler} {op : Op} (h : s.perform op = .ok s') :
    (s'.pass = s.pass ∧ executed op s s' = []) ∨
      ∃ now, executed op s s' = (s.pass.tasksList.filter (·.isDue now)).map (now, ·) ∧
        s'.pass.tasksList =
          (s.pass.tasksList.filter (·.stays now)).map (·.handled intPeriod now) := by
  cases op with
  | wait test value =>
      obtain rfl := Except.ok.inj h
      exact .inl ⟨rfl, rfl⟩
  | executeTasks now =>
      dsimp only [perform] at h
      cases hpass : s.pass.executeTasks intPeriod now with
      | none =>
          rw [hpass] at h
          cases h
      | some pass =>
          rw [hpass] at h
          obtain rfl := Except.ok.inj h
          by_cases hbegins : s.pass.nextTaskRunTime ≠ 0 ∧ now ≥ s.pass.nextTaskRunTime
          · obtain ⟨j, -, -, hswept⟩ := TaskPass.executeTasks_swept hbegins hpass
            refine .inr ⟨now, ?_, ?_⟩
            · unfold executed
              dsimp only
              rw [hswept.ran, List.drop_left]
            · exact hswept.tasks.trans (List.append_nil _)
          · rw [TaskPass.executeTasks, if_neg hbegins] at hpass
            obtain rfl := Option.some.inj hpass
            refine .inl ⟨rfl, ?_⟩
            unfold executed
            dsimp only
            rw [List.drop_length, List.map_nil]

/-- The task `t₀` since it has been added: it is listed, and due when its executions allow it, or it
has been executed once and is gone. -/
inductive Follows (t₀ : Task) (x : Logged) : Prop
  | listed {t : Task} (hmem : t ∈ x.scheduler.pass.tasksList) (hconfigured : t.IsConfigured t₀)
      (hpaced : Paced (1000 * t₀.runIntervalSeconds) t₀.nextRunTime t.nextRunTime
        (timesOf t₀.addr x.log))
      (honce : t₀.isOneTime = true → timesOf t₀.addr x.log = [])
  | gone {time : Datetime} (hnone : ∀ t ∈ x.scheduler.pass.tasksList, t.addr ≠ t₀.addr)
      (honce : t₀.isOneTime = true) (htimes : timesOf t₀.addr x.log = [time])
      (hdue : t₀.nextRunTime ≤ time)

/-- Every task is followed, and every execution is one of theirs. -/
structure Kept (tasks : List Task) (x : Logged) : Prop where
  nodup : (x.scheduler.pass.tasksList.map Task.addr).Nodup
  follows : ∀ t₀ ∈ tasks, Follows t₀ x
  listed : ∀ t ∈ x.scheduler.pass.tasksList, ∃ t₀ ∈ tasks, t.IsConfigured t₀
  executed : ∀ e ∈ x.log, ∃ t₀ ∈ tasks, e.2.IsConfigured t₀

theorem timesOf_append (addr : Ptr) (log log' : List (Datetime × Task)) :
    timesOf addr (log ++ log') = timesOf addr log ++ timesOf addr log' := by
  unfold timesOf
  rw [List.filter_append, List.map_append]

theorem timesOf_due (hnodup : (tasks.map Task.addr).Nodup) (ht : t ∈ tasks) (now : Datetime) :
    timesOf t.addr ((tasks.filter (·.isDue now)).map (now, ·)) =
      if t.isDue now then [now] else [] := by
  have hself : tasks.filter (fun u => u.addr == t.addr) = [t] :=
    filter_eq_singleton_of_key hnodup ht fun u => beq_iff_eq
  calc
    timesOf t.addr ((tasks.filter (·.isDue now)).map (now, ·)) =
        ((tasks.filter fun u => u.addr == t.addr).filter (·.isDue now)).map fun _ => now := by
      unfold timesOf
      rw [List.filter_map, List.map_map, List.filter_filter, List.filter_filter]
      congr 1
      apply List.filter_congr
      intro u _
      exact Bool.and_comm _ _
    _ = if t.isDue now then [now] else [] := by
      rw [hself]
      cases hdue : t.isDue now <;> simp [hdue]

theorem timesOf_unlisted {addr : Ptr} (hnone : ∀ t ∈ tasks, t.addr ≠ addr) (now : Datetime) :
    timesOf addr ((tasks.filter (·.isDue now)).map (now, ·)) = [] := by
  unfold timesOf
  rw [List.filter_map, List.map_eq_nil_iff, List.map_eq_nil_iff, List.filter_eq_nil_iff]
  intro u hu
  simpa using hnone u (List.mem_of_mem_filter hu)

/-! ## A pass -/

section Pass

variable {x y : Logged}

theorem mem_handled (ht : t ∈ tasks) (hstays : t.stays now = true) :
    t.handled intPeriod now ∈ (tasks.filter (·.stays now)).map (·.handled intPeriod now) :=
  List.mem_map_of_mem (List.mem_filter.mpr ⟨ht, hstays⟩)

theorem exists_of_mem_handled
    (hu : u ∈ (tasks.filter (·.stays now)).map (·.handled intPeriod now)) :
    ∃ t ∈ tasks, t.stays now = true ∧ t.handled intPeriod now = u := by
  obtain ⟨t, ht, hu⟩ := List.mem_map.mp hu
  exact ⟨t, List.mem_of_mem_filter ht, (List.mem_filter.mp ht).2, hu⟩

theorem Follows.next (h : Follows t₀ x) (hfits : t₀.Fits)
    (hnodup : (x.scheduler.pass.tasksList.map Task.addr).Nodup)
    (hlog : y.log = x.log ++ (x.scheduler.pass.tasksList.filter (·.isDue now)).map (now, ·))
    (htasks : y.scheduler.pass.tasksList =
      (x.scheduler.pass.tasksList.filter (·.stays now)).map (·.handled intPeriod now)) :
    Follows t₀ y := by
  cases h with
  | gone hnone honce htimes hdue =>
      refine .gone (fun u hu => ?_) honce ?_ hdue
      · obtain ⟨t, ht, -, rfl⟩ := exists_of_mem_handled (htasks ▸ hu)
        exact hnone t ht
      · rw [hlog, timesOf_append, htimes, timesOf_unlisted hnone]
        rfl
  | @listed t hmem hconfigured hpaced honce =>
      have htimes : timesOf t₀.addr y.log =
          timesOf t₀.addr x.log ++ if t.isDue now then [now] else [] := by
        rw [hlog, timesOf_append, ← hconfigured.addr_eq, timesOf_due hnodup hmem]
      cases hdue : t.isDue now with
      | false =>
          rw [hdue, if_neg (by decide), List.append_nil] at htimes
          have hstays : t.stays now = true := by simp [Task.stays, hdue]
          have hleft := mem_handled hmem hstays
          rw [Task.handled_of_not_due hdue] at hleft
          exact .listed (htasks ▸ hleft) hconfigured (htimes ▸ hpaced) (htimes ▸ honce)
      | true =>
          rw [hdue, if_pos rfl] at htimes
          have hdue' : t.nextRunTime ≤ now := of_decide_eq_true hdue
          cases hkind : t.isOneTime with
          | true =>
              have honce₀ : t₀.isOneTime = true := hconfigured.isOneTime_eq ▸ hkind
              have hfirst := hpaced.le_due
              rw [honce honce₀] at htimes hfirst
              rw [List.length_nil, Int.natCast_zero, Int.zero_mul, Int.add_zero] at hfirst
              refine .gone (fun u hu haddr => ?_) honce₀ htimes (Int.le_trans hfirst hdue')
              obtain ⟨v, hv, hstays, rfl⟩ := exists_of_mem_handled (htasks ▸ hu)
              obtain rfl : v = t :=
                eq_of_key hnodup hv hmem (haddr.trans hconfigured.addr_eq.symm)
              simp [Task.stays, hdue, hkind] at hstays
          | false =>
              have hstays : t.stays now = true := by simp [Task.stays, hkind]
              have hlater := Task.add_period_le_after (hconfigured.fits hfits) hdue hkind
              rw [hconfigured.interval_eq] at hlater
              refine .listed (htasks ▸ mem_handled hmem hstays) (hconfigured.handled now)
                (htimes ▸ hpaced.concat hdue' hlater) fun honce₀ => ?_
              rw [← hconfigured.isOneTime_eq, hkind] at honce₀
              cases honce₀

theorem nodup_handled (hnodup : (tasks.map Task.addr).Nodup) (now : Datetime) :
    (((tasks.filter (·.stays now)).map (·.handled intPeriod now)).map Task.addr).Nodup := by
  rw [List.map_map]
  exact hnodup.sublist (List.filter_sublist.map _)

theorem Kept.record {op : Op} (h : Kept tasks x) (hfits : ∀ t ∈ tasks, t.Fits)
    (hstep : x.record op = some y) : Kept tasks y := by
  obtain ⟨hperform, hlog⟩ := record_spec hstep
  rcases executed_cases hperform with ⟨hsame, hnothing⟩ | ⟨now, hexecuted, htasks⟩
  · rw [hnothing, List.append_nil] at hlog
    refine ⟨hsame ▸ h.nodup, fun t₀ ht₀ => ?_, hsame ▸ h.listed, hlog ▸ h.executed⟩
    cases h.follows t₀ ht₀ with
    | listed hmem hconfigured hpaced honce =>
        exact .listed (hsame ▸ hmem) hconfigured (hlog ▸ hpaced) (hlog ▸ honce)
    | gone hnone honce htimes hdue => exact .gone (hsame ▸ hnone) honce (hlog ▸ htimes) hdue
  · rw [hexecuted] at hlog
    refine ⟨htasks ▸ nodup_handled h.nodup now, fun t₀ ht₀ => ?_, fun u hu => ?_, fun e he => ?_⟩
    · exact (h.follows t₀ ht₀).next (hfits t₀ ht₀) h.nodup hlog htasks
    · obtain ⟨t, ht, -, rfl⟩ := exists_of_mem_handled (htasks ▸ hu)
      obtain ⟨t₀, ht₀, hconfigured⟩ := h.listed t ht
      exact ⟨t₀, ht₀, hconfigured.handled now⟩
    · rw [hlog, List.mem_append] at he
      rcases he with he | he
      · exact h.executed e he
      · obtain ⟨t, ht, rfl⟩ := List.mem_map.mp he
        exact h.listed t (List.mem_of_mem_filter ht)

end Pass

/-! ## A run -/

/-- In every run a task is executed for the `k`-th time no earlier than `k - 1` periods behind its
first run, so that until any time it has been executed at most once for each period that has begun;
a one-time task is executed once at most, and no other tasks are executed. The clock may do what it
wants. -/
theorem executions_paced {pass : TaskPass} {x : Logged}
    (hnodup : (pass.tasksList.map Task.addr).Nodup) (hfits : ∀ t ∈ pass.tasksList, t.Fits)
    (hrun : Reach (fun x op y => x.record op = some y) anyStep (· = ⟨start pass, []⟩) x) :
    (∀ e ∈ x.log, ∃ t ∈ pass.tasksList, e.2.IsConfigured t) ∧
      ∀ t ∈ pass.tasksList,
        (∀ (k : Nat) (time : Datetime), (timesOf t.addr x.log)[k]? = some time →
          t.nextRunTime + k * (1000 * t.runIntervalSeconds) ≤ time) ∧
        (t.isOneTime = true → (timesOf t.addr x.log).length ≤ 1) ∧
        (t.isOneTime = false → ∀ time : Datetime,
          ((timesOf t.addr x.log).countP (· ≤ time) : Int) ≤
            max 0 ((time - t.nextRunTime) / (1000 * t.runIntervalSeconds) + 1)) := by
  have hkept : Kept pass.tasksList x := by
    refine Reach.invariant (I := Kept pass.tasksList) (fun x hx => ?_)
      (fun x op y h _ hstep => h.record hfits hstep) hrun
    subst hx
    exact ⟨hnodup, fun t ht => .listed ht (.refl t) (.nil _ _) fun _ => rfl,
      fun t ht => ⟨t, ht, .refl t⟩, fun e he => by cases he⟩
  refine ⟨hkept.executed, fun t ht => ?_⟩
  cases hkept.follows t ht with
  | listed hmem hconfigured hpaced honce =>
      refine ⟨hpaced.le_time, fun hkind => by rw [honce hkind]; exact Nat.zero_le 1,
        fun hkind time => hpaced.countP_le ?_ time⟩
      have hinterval : ¬t.runIntervalSeconds ≤ 0 := of_decide_eq_false hkind
      omega
  | gone hnone honce htimes hdue =>
      rw [htimes]
      refine ⟨fun k time htime => ?_, fun _ => Nat.le_refl 1, fun hkind => ?_⟩
      · obtain ⟨hk, rfl⟩ := List.getElem?_eq_some_iff.mp htime
        obtain rfl : k = 0 := by simpa using hk
        simpa using hdue
      · rw [honce] at hkind
        cases hkind

/-- A pass in which a one-time task is due, and a later one with the other two. -/
theorem executions_paced_mixed : ∃ x : Logged,
    timesOf 1 x.log = [250] ∧ timesOf 2 x.log = [50] ∧
      (∀ e ∈ x.log, ∃ t ∈ TaskPass.Sample.mixed.tasksList, e.2.IsConfigured t) ∧
      ((timesOf 1 x.log).countP (· ≤ 3600200) : Int) ≤ 2 := by
  have hruns : ([.executeTasks 50, .executeTasks 250] : List Op).foldlM Logged.record
      ⟨start TaskPass.Sample.mixed, []⟩ = some _ := rfl
  have hrun : Reach (fun x op y => Logged.record x op = some y) anyStep
      (· = ⟨start TaskPass.Sample.mixed, []⟩) _ :=
    Reach.foldlM (.start rfl) (guarded_anyStep _ _ _) hruns
  have hmem : TaskPass.Sample.hourly 1 100 ∈ TaskPass.Sample.mixed.tasksList := List.mem_cons_self
  obtain ⟨hexecuted, htasks⟩ := executions_paced (by decide) (by decide) hrun
  exact ⟨_, by decide +kernel, by decide +kernel, hexecuted, (htasks _ hmem).2.2 rfl 3600200⟩

end Scheduler

end Relb
