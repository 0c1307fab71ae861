import Relb.Lib.Keyed
import Relb.Model.Bind
import Relb.Model.Main
import Relb.Proofs.ConfigLines
/-!
# The rules that take effect

The iterators walk through the lists of the first bind, whatever index they start with, so
that `main` hands over all that `loadConfig` has put there: the rules of the lines behind the
bind. The lines before it are read, and forgotten.
-/

namespace Relb

open Lib

def ServerInfo.configured (srv : ServerInfo) : DstConf :=
  ⟨srv.ip, srv.port, srv.weight, srv.maxConnections⟩

def TaskInfo.configured (task : TaskInfo) : TaskType × Int × Option Datetime :=
  (task.taskType, task.runIntervalSeconds, if task.fixedTime then some task.nextRunTime else none)

namespace BindServer

/-- A server of the configuration, with the clock value `now`. -/
def addDst (clock : Int → Datetime) (b : BindServer) (x : DstConf × Nat) : BindServer :=
  b.addServer x.1.dstIp x.1.dstPort x.1.weight x.1.maxConnections (clock x.2)

def addTaskInfo (clock : Int → Datetime) (b : BindServer) (x : TaskInfo × Nat) : BindServer :=
  if x.1.fixedTime then b.addTaskAt x.1.taskType x.1.nextRunTime x.1.runIntervalSeconds
  else b.addTask x.1.taskType x.1.runIntervalSeconds (clock x.2)

def addFilterInfo (b : BindServer) (x : FilterInfo × Nat) : BindServer :=
  b.addFilter x.1.srcIp x.1.srcMask x.1.dstIp x.1.dstMask x.1.allow

def addBindAddress (b : BindServer) (x : BindAddress × Nat) : BindServer :=
  b.addAddress x.1.srcPort x.1.srcIp

/-- The three lists that the rules go to. -/
def rules (b : BindServer) :
    List DstConf × List FilterInfo × List (TaskType × Int × Option Datetime) :=
  (b.slist.serversList.map ServerInfo.configured, b.slist.filterList,
    b.tasks.tasksList.map TaskInfo.configured)

variable (clock : Int → Datetime) (b : BindServer)

theorem rules_addBindAddresses (l : List (BindAddress × Nat)) :
    (l.foldl addBindAddress b).rules = b.rules :=
  foldl_keeps (f := rules) (g := addBindAddress) (fun _ _ => rfl) l b

theorem rules_addDsts (l : List (DstConf × Nat)) :
    (l.foldl (addDst clock) b).rules =
      (b.rules.1 ++ l.map Prod.fst, b.rules.2.1, b.rules.2.2) := by
  induction l generalizing b with
  | nil => simp
  | cons x l ih =>
      rw [List.foldl_cons, ih]
      simp [rules, addDst, addServer, ServerList.addServer, ServerInfo.configured]

theorem rules_addTaskInfos (l : List (TaskInfo × Nat)) :
    (l.foldl (addTaskInfo clock) b).rules =
      (b.rules.1, b.rules.2.1, b.rules.2.2 ++ l.map fun x => x.1.configured) := by
  induction l generalizing b with
  | nil => simp
  | cons x l ih =>
      have hstep : (b.addTaskInfo clock x).rules =
          (b.rules.1, b.rules.2.1, b.rules.2.2 ++ [x.1.configured]) := by
        unfold addTaskInfo
        split
        · rename_i hfixed
          simp [rules, addTaskAt, TaskList.addTaskAt, TaskList.add, TaskInfo.configured, hfixed]
        · rename_i hfixed
          simp [rules, addTask, TaskList.addTask, TaskList.add, TaskInfo.configured, hfixed]
      rw [List.foldl_cons, ih, hstep]
      simp

theorem rules_addFilterInfos (l : List (FilterInfo × Nat)) :
    (l.foldl addFilterInfo b).rules =
      (b.rules.1, b.rules.2.1 ++ l.map Prod.fst, b.rules.2.2) := by
  induction l generalizing b with
  | nil => simp
  | cons x l ih =>
      rw [List.foldl_cons, ih]
      simp [rules, addFilterInfo, addFilter, ServerList.addFilter]

/-- Only what start-up may do has been done, and on both sides. -/
structure Ready (b : BindServer) : Prop where
  configured : ServerList.Configured b.slist
  peerList : b.admin.peerList = []
  serverList : b.admin.serverList = b.slist.serversList

theorem ready_create (start : Datetime) : (create start).Ready := ⟨.create start, rfl, rfl⟩

namespace Ready

variable {b} {b' : BindServer}

theorem other (h : b.Ready) (hslist : b'.slist = b.slist) (hadmin : b'.admin = b.admin) :
    b'.Ready :=
  ⟨hslist ▸ h.configured, hadmin ▸ h.peerList, hadmin ▸ hslist ▸ h.serverList⟩

theorem addServer (h : b.Ready) (ip : IpAddress) (port : UInt16) (weight maxConnections : Int)
    (now : Datetime) : (b.addServer ip port weight maxConnections now).Ready :=
  ⟨.addServer _ _ _ _ _ h.configured, h.peerList, congrArg (· ++ _) h.serverList⟩

theorem addFilter (h : b.Ready) (f : FilterInfo) :
    Ready { b with slist := b.slist.addFilter f } :=
  ⟨.addFilter f h.configured, h.peerList, h.serverList⟩

theorem setServerRetry (h : b.Ready) (seconds : Int) : (b.setServerRetry seconds).Ready :=
  ⟨.setServerRetry seconds h.configured, h.peerList, h.serverList⟩

theorem started (h : b.Ready) : Bind.Started ⟨.create b.slist, b.admin⟩ :=
  ⟨⟨b.slist, h.configured, rfl⟩, h.peerList, congrArg _ h.serverList⟩

theorem started_attachAdmin (h : b.Ready) :
    Bind.Started ⟨.create b.slist.attachAdmin, b.admin⟩ :=
  ⟨⟨_, .attachAdmin h.configured, rfl⟩, h.peerList, congrArg _ h.serverList⟩

end Ready

end BindServer

namespace AppConfig

variable {env : Env} {c c' : AppConfig} {b : BindConf} {α : Type} {list : BindConf → List α}

/-! ## The iterators -/

theorem inBind_eq (hb : c.theBind = some b) (list : BindConf → List α) (i : Int) :
    c.inBind list i = decide (i < (list b).length) := by
  rw [inBind, hb]
  rfl

theorem ofBind_natCast (hb : c.theBind = some b) {n : Nat} {x : α}
    (hx : (list b)[n]? = some x) : c.ofBind list (n : Int) = some x := by
  rw [ofBind, hb, Option.bind_some, at?, if_pos (Int.natCast_nonneg n), Int.toNat_natCast, hx]

theorem walks_getNextAddress (b : BindConf) : Walks (fun c => c.theBind = some b ∧
    c.currentServer = 0) getNextAddress currentAddress b.address :=
  ⟨fun _ h => h, fun _ _ => rfl, fun _ h => inBind_eq h.1 _ _⟩

theorem walks_getNextServer (b : BindConf) :
    Walks (fun c => c.theBind = some b) getNextServer currentServer b.dst :=
  ⟨fun _ h => h, fun _ _ => rfl, fun _ h => inBind_eq h _ _⟩

theorem walks_getNextTask (b : BindConf) :
    Walks (fun c => c.theBind = some b) getNextTask currentTask b.tasks :=
  ⟨fun _ h => h, fun _ _ => rfl, fun _ h => inBind_eq h _ _⟩

theorem walks_getNextFilter (b : BindConf) :
    Walks (fun c => c.theBind = some b) getNextFilter currentFilter b.filter :=
  ⟨fun _ h => h, fun _ _ => rfl, fun _ h => inBind_eq h _ _⟩

/-! ## The bodies of the loops -/

theorem doesEach_addAddress (b : BindConf) : DoesEach (fun c => c.theBind = some b ∧
    c.currentServer = 0) currentAddress b.address addAddress BindServer.addBindAddress := by
  intro c hc i hi a ha s
  simp [addAddress, getAddressPort, getAddressIP, hi, ofBind_natCast hc.1 ha,
    BindServer.addBindAddress]

theorem doesEach_addServer (clock : Int → Datetime) (b : BindConf) :
    DoesEach (fun c => c.theBind = some b) currentServer b.dst (addServer clock)
      (BindServer.addDst clock) := by
  intro c hc i hi d hd s
  simp [addServer, getServerIP, getServerPort, getServerWeight, getServerMaxConnections,
    hi, ofBind_natCast hc hd, BindServer.addDst]

theorem doesEach_addTask (clock : Int → Datetime) (b : BindConf) :
    DoesEach (fun c => c.theBind = some b) currentTask b.tasks (addTask clock)
      (BindServer.addTaskInfo clock) := by
  intro c hc i hi t ht s
  simp [addTask, getTaskFixedTime, getTaskType, getTaskFirstRun, getTaskInterval,
    hi, ofBind_natCast hc ht, BindServer.addTaskInfo]

theorem doesEach_addFilter (b : BindConf) : DoesEach (fun c => c.theBind = some b) currentFilter
    b.filter addFilter BindServer.addFilterInfo := by
  intro c hc i hi f hf s
  simp [addFilter, getFilterSourceIP, getFilterSourceMask, getFilterDestIP, getFilterDestMask,
    getFilterAllow, hi, ofBind_natCast hc hf, BindServer.addFilterInfo]

/-! ## The loops -/

theorem countInBind_eq (hb : c.theBind = some b) (list : BindConf → List α) :
    c.countInBind list = (list b).length := by
  rw [countInBind, hb]
  rfl

variable {x : AppConfig × BindServer}

theorem addAddresses_spec (hb : x.1.theBind = some b) (haddress : x.1.currentAddress = 0)
    (hserver : x.1.currentServer = 0) (hne : b.address ≠ []) :
    (addAddresses x).2.rules = x.2.rules ∧ (addAddresses x).1.theBind = some b ∧
      (addAddresses x).1.currentServer = 0 := by
  have hfuel : b.address.length ≤ x.1.countInBind BindConf.address + 1 := by
    rw [countInBind_eq hb]
    omega
  obtain ⟨hresult, hstate⟩ := (walks_getNextAddress b).doWhile (doesEach_addAddress b)
    ⟨hb, hserver⟩ haddress hne hfuel x.2
  exact ⟨(congrArg _ hresult).trans (BindServer.rules_addBindAddresses _ _), hstate⟩

theorem addServers_spec (hb : x.1.theBind = some b) (hserver : x.1.currentServer = 0)
    (hne : b.dst ≠ []) (clock : Int → Datetime) :
    (addServers clock x).2.rules = (x.2.rules.1 ++ b.dst, x.2.rules.2.1, x.2.rules.2.2) ∧
      (addServers clock x).1.theBind = some b := by
  have hfuel : b.dst.length ≤ x.1.countInBind BindConf.dst + 1 := by
    rw [countInBind_eq hb]
    omega
  obtain ⟨hresult, hstate⟩ := (walks_getNextServer b).doWhile (doesEach_addServer clock b)
    hb hserver hne hfuel x.2
  refine ⟨(congrArg _ hresult).trans ?_, hstate⟩
  rw [BindServer.rules_addDsts, List.zipIdx_map_fst]

theorem addTasks_spec (hb : x.1.theBind = some b) (clock : Int → Datetime) :
    (addTasks clock x).2.rules =
        (x.2.rules.1, x.2.rules.2.1, x.2.rules.2.2 ++ b.tasks.map TaskInfo.configured) ∧
      (addTasks clock x).1.theBind = some b := by
  have hcount : x.1.getTasksCount = (b.tasks.length, { x.1 with currentTask := -1 }) := by
    rw [getTasksCount, hb]
    rfl
  have hstart : ({ x.1 with currentTask := -1 } : AppConfig).theBind = some b := hb
  obtain ⟨hresult, hstate⟩ :=
    (walks_getNextTask b).ifAny (doesEach_addTask clock b) hstart rfl x.2
  rw [addTasks, hcount]
  refine ⟨(congrArg _ hresult).trans ?_, hstate⟩
  rw [BindServer.rules_addTaskInfos]
  conv => rhs; rw [← List.zipIdx_map_fst 0 b.tasks, List.map_map]
  rfl

theorem addFilters_spec (hb : x.1.theBind = some b) :
    (addFilters x).2.rules = (x.2.rules.1, x.2.rules.2.1 ++ b.filter, x.2.rules.2.2) := by
  have hcount : x.1.getFilterCount = (b.filter.length, { x.1 with currentFilter := -1 }) := by
    rw [getFilterCount, hb]
    rfl
  have hstart : ({ x.1 with currentFilter := -1 } : AppConfig).theBind = some b := hb
  obtain ⟨hresult, -⟩ := (walks_getNextFilter b).ifAny (doesEach_addFilter b) hstart rfl x.2
  rw [addFilters, hcount]
  apply (congrArg _ hresult).trans
  rw [BindServer.rules_addFilterInfos, List.zipIdx_map_fst]

theorem rules_setUp {rest : List BindConf} (hbind : c.bind = b :: rest)
    (haddress : c.currentAddress = 0) (hserver : c.currentServer = 0) (haddresses : b.address ≠ [])
    (hdst : b.dst ≠ []) (start : Datetime) (serverClock taskClock : Int → Datetime) :
    (c.setUp start serverClock taskClock).rules =
      (b.dst, b.filter, b.tasks.map TaskInfo.configured) := by
  have hfirst : c.getFirstBind.2.theBind = some b := by
    simp [getFirstBind, theBind, at?, hbind]
  have hretry : ∀ (s : BindServer) seconds, (s.setServerRetry seconds).rules = s.rules :=
    fun _ _ => rfl
  obtain ⟨hrules₁, hbind₁, hserver₁⟩ := addAddresses_spec (x := (c.getFirstBind.2,
    (BindServer.create start).setAdmin c.httpAdminEnabled c.httpAdminIp c.httpAdminPort))
    hfirst haddress hserver haddresses
  obtain ⟨hrules₂, hbind₂⟩ := addServers_spec hbind₁ hserver₁ hdst serverClock
  obtain ⟨hrules₃, hbind₃⟩ := addTasks_spec hbind₂ taskClock
  have hrules₄ := addFilters_spec hbind₃
  rw [hrules₃, hrules₂, hrules₁] at hrules₄
  exact (hretry _ _).trans hrules₄

/-- The set-up leaves a bind that can start, with and without the web admin attached. -/
theorem started_setUp (c : AppConfig) (start : Datetime) (serverClock taskClock : Int → Datetime) :
    let b := c.setUp start serverClock taskClock
    Bind.Started ⟨.create b.slist, b.admin⟩ ∧
      Bind.Started ⟨.create b.slist.attachAdmin, b.admin⟩ := by
  have haddress : ∀ c b, BindServer.Ready b → (addAddress c b).Ready :=
    fun _ _ hb => hb.other rfl rfl
  have hcreate : ((BindServer.create start).setAdmin c.getFirstBind.2.httpAdminEnabled
      c.getFirstBind.2.httpAdminIp c.getFirstBind.2.httpAdminPort).Ready :=
    (BindServer.ready_create start).other rfl rfl
  have hservers : BindServer.Ready (addServers serverClock (addAddresses (c.getFirstBind.2,
      (BindServer.create start).setAdmin c.getFirstBind.2.httpAdminEnabled
        c.getFirstBind.2.httpAdminIp c.getFirstBind.2.httpAdminPort))).2 := by
    refine whileNext_keeps (fun _ b hb => hb.addServer _ _ _ _ _) _ _ (.addServer ?_ _ _ _ _ _)
    exact whileNext_keeps haddress _ _ (haddress _ _ hcreate)
  have htasks : ∀ x : AppConfig × BindServer, x.2.Ready → (addTasks taskClock x).2.Ready := by
    intro x hx
    unfold addTasks
    dsimp only
    split
    · refine whileNext_keeps (fun c b hb => ?_) _ _ hx
      unfold addTask
      split <;> exact hb.other rfl rfl
    · exact hx
  have hfilters : ∀ x : AppConfig × BindServer, x.2.Ready → (addFilters x).2.Ready := by
    intro x hx
    unfold addFilters
    dsimp only
    split
    · exact whileNext_keeps (fun _ b hb => hb.addFilter _) _ _ hx
    · exact hx
  have hready := hfilters _ (htasks _ hservers)
  exact ⟨(hready.setServerRetry _).started, (hready.setServerRetry _).started_attachAdmin⟩

/-! ## Loading -/

variable {files : String → Option (List ConfigLine)} {lines before behind : List ConfigLine}
  {l : ConfigLine} {path : String}

theorem loadFile_spec {loaded : Bool} (h : loadFile env files c = .ok (loaded, c')) :
    (loaded = true ∧ ∃ lines, files c.configfile = some lines ∧
      (lines.take 4000).foldlM (processConfigLine env) c.setDefaultValues = .ok c') ∨
    loaded = false ∧ c' = c.setDefaultValues := by
  unfold loadFile at h
  dsimp only at h
  split at h
  · rename_i lines hlines
    obtain ⟨c₁, hc₁, h⟩ := of_bind_eq_ok h
    obtain ⟨rfl, rfl⟩ := Prod.mk.inj (Except.ok.inj h)
    exact .inl ⟨rfl, lines, hlines, hc₁⟩
  · obtain ⟨rfl, rfl⟩ := Prod.mk.inj (Except.ok.inj h)
    exact .inr ⟨rfl, rfl⟩

theorem loadFiles_spec (h : loadFiles env files (create path) = .ok (true, c')) :
    ∃ name lines, files name = some lines ∧
      (lines.take 4000).foldlM (processConfigLine env) (create name) = .ok c' := by
  unfold loadFiles at h
  split at h
  · obtain ⟨-, lines, hlines, hrun⟩ | ⟨hloaded, -⟩ := loadFile_spec h
    · exact ⟨path, lines, hlines, hrun⟩
    · cases hloaded
  · obtain ⟨⟨first, c₁⟩, hfirst, h⟩ := of_bind_eq_ok h
    obtain ⟨rfl, lines, hlines, hrun⟩ | ⟨rfl, rfl⟩ := loadFile_spec hfirst
    · obtain ⟨-, rfl⟩ := Prod.mk.inj (Except.ok.inj h)
      exact ⟨"relb.conf", lines, hlines, hrun⟩
    · obtain ⟨-, lines, hlines, hrun⟩ | ⟨hloaded, -⟩ := loadFile_spec h
      · exact ⟨"/etc/relb.conf", lines, hlines, hrun⟩
      · cases hloaded

theorem loadConfig_spec (h : loadConfig env files (create path) = .ok (true, c')) :
    c'.checkConfig env = true ∧ ∃ name lines, files name = some lines ∧
      (lines.take 4000).foldlM (processConfigLine env) (create name) = .ok c' := by
  obtain ⟨⟨loaded, c₁⟩, hload, h⟩ := of_bind_eq_ok h
  obtain ⟨hcheck, rfl⟩ := Prod.mk.inj (Except.ok.inj h)
  obtain ⟨rfl, hcheck⟩ := Bool.and_eq_true_iff.mp hcheck
  exact ⟨hcheck, loadFiles_spec hload⟩

theorem checkConfig_spec (h : c.checkConfig env = true) :
    ∀ b ∈ c.bind, b.address ≠ [] ∧ b.dst ≠ [] := by
  intro b hb
  simp only [checkConfig, Bool.and_eq_true, List.all_eq_true] at h
  have hall := h.2 b hb
  simp only [Bool.not_eq_true', List.isEmpty_eq_false_iff] at hall
  exact ⟨hall.1.1, hall.2⟩

/-- The rules of the lines behind the bind take effect, in their order, and no others. -/
theorem rules_take_effect (hload : loadConfig env files (create path) = .ok (true, c))
    (hfile : files c.configfile = some (before ++ l :: behind))
    (hlength : (before ++ l :: behind).length ≤ 4000) (hbind : (l.bindLine env).isSome)
    (hone : ∀ x ∈ before ++ behind, x.bindLine env = none) (start : Datetime)
    (serverClock taskClock : Int → Datetime) :
    (c.setUp start serverClock taskClock).rules =
      (behind.filterMap (·.serverLine env), behind.filterMap (·.filterLine env),
        (behind.filterMap (·.taskLine env)).map TaskInfo.configured) := by
  obtain ⟨hcheck, name, lines, hlines, hrun⟩ := loadConfig_spec hload
  obtain ⟨hname, -, hserver, -, -, haddress⟩ : c.configfile = name ∧ c.currentBind = 0 ∧
      c.currentServer = 0 ∧ c.currentTask = -1 ∧ c.currentFilter = 0 ∧ c.currentAddress = 0 := by
    simpa [indexes, create] using indexes_foldlM hrun
  rw [hname, hlines] at hfile
  obtain rfl := Option.some.inj hfile
  rw [List.take_of_length_le hlength] at hrun
  obtain ⟨address, hvalid⟩ := Option.isSome_iff_exists.mp hbind
  have hbinds := oneBind_spec hvalid hone rfl hrun
  have hnonempty := checkConfig_spec hcheck _ (hbinds ▸ List.mem_singleton_self _)
  exact rules_setUp hbinds haddress hserver hnonempty.1 hnonempty.2 start serverClock taskClock

end AppConfig

namespace AppConfig

namespace Sample

/-- Two addresses resolve, and all sockets are available. -/
def env : Env where
  phostbyname name :=
    if name = "10.0.0.0".toList then ⟨10, 0, 0, 0⟩
    else if name = "192.168.1.201".toList then ⟨192, 168, 1, 201⟩
    else ipnone
  checkIpBindable _ := true
  checkIpPortBindable _ _ := true
  isvalid _ := true
  encodedate _ _ _ := 0
  encodetime _ _ _ := 0
  decodedate _ := (1970, 1, 1)

def line (text : String) : ConfigLine := ⟨text.toList, 0, 0⟩

def bind : ConfigLine := line "bind: 4389"

def server : ConfigLine := line "server: 192.168.1.201:3389,100,20"

def deny : ConfigLine := line "filter: 10.0.0.0/8 192.168.1.201/32 deny"

def task : ConfigLine := line "task: clean 3600"

def denied : FilterInfo :=
  ⟨⟨10, 0, 0, 0⟩, ⟨255, 0, 0, 0⟩, ⟨192, 168, 1, 201⟩, ⟨255, 255, 255, 255⟩, false⟩

def files (lines : List ConfigLine) (name : String) : Option (List ConfigLine) :=
  if name = "relb.conf" then some lines else none

end Sample

theorem loaded_of_any {x : Except Fault (Bool × AppConfig)} {P : AppConfig → Bool}
    (h : x.toOption.any fun r => r.1 && P r.2) : ∃ c, x = .ok (true, c) ∧ P c = true := by
  cases x with
  | error fault => cases h
  | ok r =>
      obtain ⟨hloaded, hc⟩ := Bool.and_eq_true_iff.mp h
      exact ⟨r.2, congrArg Except.ok (Prod.ext hloaded rfl), hc⟩

/-- A file in the usual order. -/
theorem rules_take_effect_usual : ∃ c : AppConfig,
    loadConfig Sample.env (Sample.files [Sample.bind, Sample.server, Sample.deny, Sample.task])
        (create "relb.conf") = .ok (true, c) ∧
      (c.setUp 0 (fun _ => 0) (fun _ => 0)).rules = ([⟨⟨192, 168, 1, 201⟩, 3389, 100, 20⟩],
        [Sample.denied], [(.cleanConnections, 3600, none)]) := by
  obtain ⟨c, hload, hname⟩ := loaded_of_any (P := fun c => decide (c.configfile = "relb.conf"))
    (x := loadConfig Sample.env (Sample.files [Sample.bind, Sample.server, Sample.deny,
      Sample.task]) (create "relb.conf")) (by decide +kernel)
  have hfile : Sample.files [Sample.bind, Sample.server, Sample.deny, Sample.task] c.configfile =
      some ([] ++ Sample.bind :: [Sample.server, Sample.deny, Sample.task]) := by
    rw [of_decide_eq_true hname]
    rfl
  refine ⟨c, hload, (rules_take_effect hload hfile (by decide) (by decide +kernel) ?_ 0 (fun _ => 0)
    fun _ => 0).trans (by decide +kernel)⟩
  intro x hx
  simp only [List.nil_append, List.mem_cons, List.not_mem_nil, or_false] at hx
  rcases hx with rfl | rfl | rfl <;> decide +kernel

/-- A filter in front of the bind is dropped. -/
theorem rules_before_bind : ∃ c : AppConfig,
    loadConfig Sample.env (Sample.files [Sample.deny, Sample.bind, Sample.server])
        (create "relb.conf") = .ok (true, c) ∧
      [Sample.deny, Sample.bind, Sample.server].filterMap (·.bindLine Sample.env) =
        [⟨ipany, 4389⟩] ∧
      [Sample.deny, Sample.bind, Sample.server].filterMap (·.filterLine Sample.env) =
        [Sample.denied] ∧
      (c.setUp 0 (fun _ => 0) (fun _ => 0)).slist.filterList = [] := by
  obtain ⟨c, hload, hfilters⟩ := loaded_of_any (P := fun c =>
      decide ((c.setUp 0 (fun _ => 0) (fun _ => 0)).slist.filterList = []))
    (x := loadConfig Sample.env (Sample.files [Sample.deny, Sample.bind, Sample.server])
      (create "relb.conf")) (by decide +kernel)
  exact ⟨c, hload, by decide +kernel, by decide +kernel, of_decide_eq_true hfilters⟩

end AppConfig

end Relb
