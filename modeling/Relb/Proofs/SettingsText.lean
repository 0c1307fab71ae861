import Relb.Lib.Grid
import Relb.Proofs.FilterLines
import Relb.Proofs.LocalTimes
import Relb.Proofs.ServerLines
/-!
# Settings and their lines

What a file can say, as records that cannot hold anything else, and the line for each of them. An
address is written as a dotted quad, a number in decimal and a first run in one of its three forms.
Each line is read back.
-/

namespace Relb

open Lib

open ConfigLine.Sample (quadEnv phostbyname_text)

variable {env : Env} {clock : Clock}

/-! ## Addresses -/

structure HostPort where
  ip : IpAddress
  port : UInt16
  ip_ne : ip ≠ ipnone
  port_ne : port ≠ 0

theorem IpAddress.ne_of_mem_text {ip : IpAddress} {c d : Char} (h : c ∈ ip.text)
    (hdigit : d.isDigit = false) (hdot : d ≠ '.') : c ≠ d := by
  rintro rfl
  rcases IpAddress.mem_text h with h | h
  · rw [hdigit] at h
    cases h
  · exact hdot h

theorem IpAddress.not_isBlank_of_mem {ip : IpAddress} {c : Char} (h : c ∈ ip.text) :
    isBlank c = false := by
  have hspace : c ≠ ' ' := IpAddress.ne_of_mem_text h rfl (by decide)
  have htab : c ≠ '\t' := IpAddress.ne_of_mem_text h rfl (by decide)
  simp [isBlank, hspace, htab]

theorem IpAddress.not_isHostEnd_of_mem {ip : IpAddress} {c : Char} (h : c ∈ ip.text) :
    isHostEnd c = false := by
  have hcomma : c ≠ ',' := IpAddress.ne_of_mem_text h rfl (by decide)
  have hcolon : c ≠ ':' := IpAddress.ne_of_mem_text h rfl (by decide)
  simp [isHostEnd, hcomma, hcolon]

theorem IpAddress.text_ne_nil (ip : IpAddress) : ip.text ≠ [] := by
  have hlength := ip.two_lt_length_text
  exact List.ne_nil_of_length_pos (by omega)

theorem skipBlanks_quad (ip : IpAddress) (rest : List Char) :
    skipBlanks (' ' :: (ip.text ++ rest)) = ip.text ++ rest := by
  have hblank : ∀ c ∈ [' '], isBlank c = true := by simp [isBlank]
  have hhead : ∀ c ∈ (ip.text ++ rest).head?, isBlank c = false := by
    intro c hc
    rw [List.head?_append_of_ne_nil _ ip.text_ne_nil] at hc
    exact IpAddress.not_isBlank_of_mem (List.mem_of_head? hc)
  exact skipBlanks_append hblank hhead

namespace HostPort

def text (e : HostPort) : List Char := ' ' :: (e.ip.text ++ ':' :: decimal e.port.toNat)

def address (e : HostPort) : BindAddress := ⟨e.ip, e.port⟩

theorem addressOf_text (hphost : ∀ ip : IpAddress, env.phostbyname ip.text = ip)
    (dflt : IpAddress) (e : HostPort) : addressOf env dflt e.text = some e.address := by
  have hends : ∀ c ∈ e.ip.text, isHostEnd c = false :=
    fun c hc => IpAddress.not_isHostEnd_of_mem hc
  have hport : atoi (decimal e.port.toNat) = e.port.toNat := by
    simpa using atoi_decimal (e.port.toNat_lt.trans (by decide)) endsNumber_nil
  unfold addressOf text
  rw [skipBlanks_quad]
  dsimp only
  rw [takeWhile_field hends rfl, dropWhile_field hends rfl, hphost, if_neg e.ip_ne]
  -- the host has ended with its colon
  change (if UInt16.ofInt (atoi (decimal e.port.toNat)) = 0 then none
    else some (BindAddress.mk e.ip (UInt16.ofInt (atoi (decimal e.port.toNat))))) = some e.address
  rw [hport, ofInt_toNat, if_neg e.port_ne]
  rfl

end HostPort

/-! ## Servers and filters -/

structure ServerEntry extends HostPort where
  weight : Nat
  maxConnections : Nat
  weight_lt : weight < 2 ^ 31
  maxConnections_lt : maxConnections < 2 ^ 31

namespace ServerEntry

def text (s : ServerEntry) : List Char :=
  [' '] ++ (s.ip.text ++ ':' :: (decimal s.port.toNat ++
    (ServerTail.limit s.weight s.maxConnections).text))

def dst (s : ServerEntry) : DstConf := ⟨s.ip, s.port, s.weight, s.maxConnections⟩

theorem serverOf_text (hphost : ∀ ip : IpAddress, env.phostbyname ip.text = ip)
    (s : ServerEntry) : serverOf env s.text = .ok (some s.dst) := by
  have hblanks : ∀ c ∈ [' '], isBlank c = true := by simp [isBlank]
  have hhost : ∀ c ∈ s.ip.text, isBlank c = false ∧ isHostEnd c = false :=
    fun c hc => ⟨IpAddress.not_isBlank_of_mem hc, IpAddress.not_isHostEnd_of_mem hc⟩
  have hresolved : env.phostbyname s.ip.text ≠ ipnone := by
    rw [hphost]
    exact s.ip_ne
  have hfields := serverOf_fields hblanks s.ip.text_ne_nil hhost hresolved s.port_ne
    (.limit s.weight s.maxConnections) s.weight_lt s.maxConnections_lt
  rw [hphost] at hfields
  exact hfields

end ServerEntry

structure FilterEntry where
  filter : FilterInfo
  srcIp_ne : filter.srcIp ≠ ipnone
  dstIp_ne : filter.dstIp ≠ ipnone

namespace FilterEntry

/-- The masks are written as dotted quads, which every mask has. -/
def text (f : FilterEntry) : List Char :=
  filterFields f.filter.srcIp (.quad f.filter.srcMask) f.filter.dstIp (.quad f.filter.dstMask)
    f.filter.allow

theorem filterOf_text (hphost : ∀ ip : IpAddress, env.phostbyname ip.text = ip)
    (f : FilterEntry) : filterOf env f.text = some f.filter := by
  obtain ⟨srcMask, dstMask, rfl, rfl, hread⟩ := filterOf_filterFields hphost f.srcIp_ne
    f.dstIp_ne (.quad f.filter.srcMask) (.quad f.filter.dstMask) f.filter.allow
  exact hread

end FilterEntry

/-! ## Tasks -/

structure TimeOfDay where
  hour : Nat
  minute : Nat
  second : Nat
  hour_lt : hour < 24
  minute_lt : minute < 60
  second_lt : second < 60

structure Day where
  year : Nat
  month : Nat
  day : Nat
  year_mem : 1000 ≤ year ∧ year ≤ 9999
  month_mem : 1 ≤ month ∧ month ≤ 12
  day_mem : 1 ≤ day ∧ day ≤ 31

inductive FirstRun
  | today (time : TimeOfDay)
  | compact (day : Day) (time : TimeOfDay)
  | slashed (day : Day) (time : TimeOfDay)

namespace TimeOfDay

def text (t : TimeOfDay) : List Char := clockTime t.hour t.minute t.second

theorem timeOf_text (env : Env) (t : TimeOfDay) :
    timeOf env t.text = env.encodetime t.hour t.minute t.second := by
  have hhour := t.hour_lt
  have hminute := t.minute_lt
  have hsecond := t.second_lt
  have hcolon : ∀ {n : Nat}, n < 100 → ∀ rest, afterChar ':' (twoDigits n ++ ':' :: rest) = rest :=
    fun hn rest =>
      afterChar_field (fun c hc => ne_of_isDigit (isDigit_of_mem_twoDigits hn hc) rfl) rest
  have hlast : atoi (twoDigits t.second) = t.second := by
    simpa using atoi_twoDigits (n := t.second) (by omega) endsNumber_nil
  unfold timeOf text clockTime
  dsimp only
  rw [hcolon (by omega), hcolon (by omega), hlast, atoi_twoDigits (by omega) (endsNumber_cons rfl),
    atoi_twoDigits (by omega) (endsNumber_cons rfl)]

theorem exists_digit_head (t : TimeOfDay) : ∃ d ∈ t.text.head?, d.isDigit = true :=
  have hhour := t.hour_lt
  ⟨_, rfl, isDigit_of_mem_twoDigits (n := t.hour) (by omega) List.mem_cons_self⟩

end TimeOfDay

namespace FirstRun

def text : FirstRun → List Char
  | today t => t.text
  | compact d t => compactDate d.year d.month d.day ++ ' ' :: t.text
  | slashed d t => slashedDate d.year d.month d.day ++ ' ' :: t.text

/-- The instant, by the calendar and the offset of the local time. -/
def instant (env : Env) (clock : Clock) : FirstRun → Datetime
  | today t =>
      let day := env.decodedate clock.nowUtc
      env.encodedate day.1 day.2.1 day.2.2 + env.encodetime t.hour t.minute t.second -
        clock.offset
  | compact d t | slashed d t =>
      env.encodedate d.year d.month d.day - clock.offset +
        env.encodetime t.hour t.minute t.second

theorem exists_digit_head (f : FirstRun) : ∃ d ∈ f.text.head?, d.isDigit = true := by
  cases f with
  | today t => exact t.exists_digit_head
  | compact d t =>
      rw [text, compactDate, List.append_assoc]
      exact head_decimal d.year _
  | slashed d t =>
      rw [text, slashedDate, List.append_assoc]
      exact head_decimal d.year _

theorem timeOf_nextWord (env : Env) (t : TimeOfDay) :
    timeOf env (nextWord (' ' :: t.text)) = env.encodetime t.hour t.minute t.second := by
  obtain ⟨d, hhead, hd⟩ := t.exists_digit_head
  have hword : nextWord (' ' :: t.text) = t.text := by
    unfold nextWord
    rw [List.dropWhile_cons_of_neg (by simp), List.dropWhile_cons_of_pos (by simp)]
    cases htext : t.text with
    | nil => rfl
    | cons c rest =>
        rw [htext] at hhead
        obtain rfl := Option.some.inj hhead
        exact List.dropWhile_cons_of_neg (by simpa using ne_of_isDigit hd rfl)
  rw [hword, t.timeOf_text]

theorem firstRunOf_text (env : Env) (clock : Clock) (f : FirstRun) :
    firstRunOf env clock f.text = f.instant env clock := by
  have hends : ∀ t : TimeOfDay, EndsDate (' ' :: t.text) :=
    fun t c hc => (Option.some.inj hc).symm
  cases f with
  | today t =>
      have hhour := t.hour_lt
      have hatoi : atoi t.text = t.hour := atoi_twoDigits (by omega) (endsNumber_cons rfl)
      unfold firstRunOf text instant
      dsimp only
      rw [hatoi, if_pos (by omega), t.timeOf_text]
      rfl
  | compact d t =>
      have hmonth := d.month_mem
      have hday := d.day_mem
      have hread : firstRunOf env clock (compact d t).text = _ :=
        firstRunOf_compactDate d.year_mem (by omega) (by omega) (hends t)
      exact hread.trans (congrArg _ (timeOf_nextWord env t))
  | slashed d t =>
      have hmonth := d.month_mem
      have hday := d.day_mem
      have hread : firstRunOf env clock (slashed d t).text = _ :=
        firstRunOf_slashedDate d.year_mem (by omega) (by omega) (hends t)
      exact hread.trans (congrArg _ (timeOf_nextWord env t))

end FirstRun

/-- A task. With the interval zero it is a one-time task, which needs a first run. -/
structure TaskEntry where
  taskType : TaskType
  interval : Nat
  first : Option FirstRun
  taskType_ne : taskType ≠ .invalidTask
  interval_lt : interval < 2 ^ 31
  interval_pos : first = none → 0 < interval

namespace TaskEntry

def word (t : TaskEntry) : List Char :=
  match t.taskType with
  | .purgeConnections => "purge".toList
  | .updateServerInfo => "update".toList
  | .cleanConnections | .invalidTask => "clean".toList

def text (t : TaskEntry) : List Char :=
  match t.first with
  | none => ' ' :: (t.word ++ ' ' :: decimal t.interval)
  | some f => taskText t.word (decimal t.interval) f.text

/-- When a task whose line is read at `clock` runs next. The time of a one-time task can have gone
by. -/
def nextRun (env : Env) (clock : Clock) (t : TaskEntry) : Option Datetime :=
  match t.first with
  | none => some (clock.nowUtc + t.interval)
  | some f =>
      if f.instant env clock < clock.nowUtc then
        if t.interval = 0 then none
        else some (nextPoint (1000 * t.interval) clock.nowUtc (f.instant env clock))
      else some (f.instant env clock)

/-- The task, if it runs. -/
def info (env : Env) (clock : Clock) (t : TaskEntry) : Option TaskInfo :=
  (t.nextRun env clock).map fun next =>
    { taskType := t.taskType
      runIntervalSeconds := t.interval
      nextRunTime := next
      fixedTime := t.first.isSome }

theorem isWord_word (t : TaskEntry) : IsWord t.word := by
  unfold word
  split <;> decide

theorem taskTypeOf_word (t : TaskEntry) : taskTypeOf t.word = t.taskType := by
  have hne := t.taskType_ne
  unfold word
  split
  case h_1 h => exact h ▸ by decide
  case h_2 h => exact h ▸ by decide
  case h_3 h => exact h ▸ by decide
  case h_4 h => exact absurd h hne

theorem isWord_decimal (n : Nat) : IsWord (decimal n) :=
  ⟨decimal_ne_nil n, fun _ hc => isSpace_of_isDigit (isDigit_of_mem_decimal hc)⟩

theorem atoi_interval (t : TaskEntry) : atoi (decimal t.interval) = t.interval := by
  simpa using atoi_decimal t.interval_lt endsNumber_nil

theorem catchUp_eq {interval : Nat} (hpos : 0 < interval) (hfits : interval ≤ 2147483)
    {now first : Datetime} (hpassed : first < now) :
    catchUp now interval first = .ok (nextPoint (1000 * interval) now first) := by
  have hperiod : toInt (1000 * interval) = 1000 * interval :=
    toInt_of_lt (by omega) (by omega)
  have hgone : 0 ≤ now - first := Int.sub_nonneg_of_le (Int.le_of_lt hpassed)
  unfold catchUp nextPoint
  rw [hperiod]
  dsimp only
  rw [if_neg (by omega), Int.tdiv_eq_ediv_of_nonneg hgone]

/-- The calendar knows the first run of the task, and if it has gone by, the milliseconds of the
interval fit in an `int`. -/
def ValidAt (env : Env) (clock : Clock) (t : TaskEntry) : Prop :=
  ∀ f ∈ t.first, env.isvalid (f.instant env clock) = true ∧
    (f.instant env clock < clock.nowUtc → t.interval ≤ 2147483)

theorem taskOf_text_none (t : TaskEntry) (hfirst : t.first = none) :
    taskOf env clock t.text = .ok (t.info env clock) := by
  have hinterval := t.interval_pos hfirst
  have hlast : nextWord (decimal t.interval) = [] := by
    have h := nextWord_append (fun c hc => (isWord_decimal t.interval).ne_space hc) []
    rwa [List.append_nil] at h
  have hhead : ∀ c ∈ (decimal t.interval).head?, c ≠ ' ' := by
    simpa using (isWord_decimal t.interval).head_ne_space []
  unfold text info nextRun taskOf
  rw [hfirst]
  dsimp only
  rw [skipBlanks_word t.isWord_word, nextWord_word t.isWord_word hhead, hlast, if_pos rfl,
    t.atoi_interval, if_neg (by omega), Relb.taskTypeOf_word, t.taskTypeOf_word]
  rfl

theorem taskOf_text_some (t : TaskEntry) {f : FirstRun} (hfirst : t.first = some f)
    (hvalid : t.ValidAt env clock) : taskOf env clock t.text = .ok (t.info env clock) := by
  obtain ⟨hknown, hfits⟩ := hvalid f hfirst
  have hisKnown : (!env.isvalid (f.instant env clock)) = false := by rw [hknown]; rfl
  unfold text info nextRun
  rw [hfirst]
  dsimp only
  rw [taskOf_taskText t.isWord_word (isWord_decimal t.interval) f.exists_digit_head, taskAt,
    f.firstRunOf_text, hisKnown, if_neg (by decide), t.atoi_interval, t.taskTypeOf_word]
  by_cases hpassed : f.instant env clock < clock.nowUtc
  · rw [if_pos hpassed, if_pos hpassed]
    rcases Nat.eq_zero_or_pos t.interval with hzero | hpos
    · rw [if_neg (by omega), if_pos hzero]
      rfl
    · rw [if_pos (by omega), if_neg (by omega), catchUp_eq hpos (hfits hpassed) hpassed]
      rfl
  · rw [if_neg hpassed, if_neg hpassed]
    rfl

theorem taskOf_text (t : TaskEntry) (hvalid : t.ValidAt env clock) :
    taskOf env clock t.text = .ok (t.info env clock) := by
  cases hfirst : t.first with
  | none => exact t.taskOf_text_none hfirst
  | some f => exact t.taskOf_text_some hfirst hvalid

end TaskEntry

end Relb
