import Relb.Proofs.ConfigFiles
/-!
# Files that are written from settings

A statement is one setting, and a file has the line of every statement, with comments anywhere. The
meaning of the statements is read off them without the program: a bind has its section of them, and
of the other settings the last one counts. Every such file is read as what it means.
-/

namespace Relb

open Lib

open ConfigLine.Sample (januaryEnv phostbyname_text)

/-- A number, where zero stands for a default. -/
structure Count where
  value : Nat
  value_lt : value < 2 ^ 31

def Count.orDefault (n : Count) (dflt : Int) : Int := if n.value = 0 then dflt else n.value

inductive Statement
  | bind (address : HostPort)
  | alsobind (address : HostPort)
  | server (server : ServerEntry)
  | retryserver (seconds : Count)
  | filter (filter : FilterEntry)
  | admin (address : HostPort)
  | task (task : TaskEntry)
  | conperthread (connections : Count)

namespace Statement

variable {env : Env} {clock : Clock} {c : AppConfig}

def tag : Statement → String
  | bind _ => "bind:"
  | alsobind _ => "alsobind:"
  | server _ => "server:"
  | retryserver _ => "retryserver:"
  | filter _ => "filter:"
  | admin _ => "admin:"
  | task _ => "task:"
  | conperthread _ => "conperthread:"

def fields : Statement → List Char
  | bind e | alsobind e | admin e => e.text
  | server s => s.text
  | filter f => f.text
  | task t => t.text
  | retryserver n | conperthread n => ' ' :: decimal n.value

def text (s : Statement) : List Char := s.tag.toList ++ s.fields

/-! ## Meaning -/

def bind? : Statement → Option BindAddress
  | bind e => some e.address
  | _ => none

def alsobind? : Statement → Option BindAddress
  | alsobind e => some e.address
  | _ => none

def server? : Statement → Option DstConf
  | server s => some s.dst
  | _ => none

def filter? : Statement → Option FilterInfo
  | filter f => some f.filter
  | _ => none

def task? (env : Env) (clock : Clock) : Statement → Option TaskInfo
  | task t => t.info env clock
  | _ => none

def retryserver? : Statement → Option Int
  | retryserver n => some (n.orDefault 30)
  | _ => none

def conperthread? : Statement → Option Int
  | conperthread n => some (n.orDefault 16)
  | _ => none

def admin? : Statement → Option BindAddress
  | admin e => some e.address
  | _ => none

/-- A task has a time to run at. -/
def ValidAt (env : Env) (clock : Clock) : Statement → Prop
  | task t => t.ValidAt env clock
  | _ => True

/-- A bind with its section of the statements, each at the clock of its line. -/
def sectionConf (env : Env) (s : BindAddress × List (Statement × Clock)) : BindConf where
  address := s.1 :: s.2.filterMap (·.1.alsobind?)
  dst := s.2.filterMap (·.1.server?)
  tasks := s.2.filterMap fun x => x.1.task? env x.2
  filter := s.2.filterMap (·.1.filter?)

/-- What statements mean, in the file `path`. -/
def meaning (env : Env) (path : String) (l : List (Statement × Clock)) : AppConfig :=
  let admin := (l.filterMap (·.1.admin?)).getLast?
  { AppConfig.create path with
    bind := (sections (·.1.bind?) l).map (sectionConf env)
    minimumServerReconnectionTime := (l.filterMap (·.1.retryserver?)).getLast?.getD 30
    connectionsPerThread := (l.filterMap (·.1.conperthread?)).getLast?.getD 16
    httpAdminEnabled := (admin.map fun _ => true).getD false
    httpAdminIp := (admin.map BindAddress.srcIp).getD ipany
    httpAdminPort := (admin.map BindAddress.srcPort).getD 8182 }

/-! ## One line -/

def addTo (env : Env) (x : Statement × Clock) (b : BindConf) : BindConf where
  address := b.address ++ x.1.alsobind?.toList
  dst := b.dst ++ x.1.server?.toList
  tasks := b.tasks ++ (x.1.task? env x.2).toList
  filter := b.filter ++ x.1.filter?.toList

def apply (env : Env) (c : AppConfig) (x : Statement × Clock) : AppConfig where
  configfile := c.configfile
  httpAdminEnabled := (x.1.admin?.map fun _ => true).getD c.httpAdminEnabled
  httpAdminPort := (x.1.admin?.map BindAddress.srcPort).getD c.httpAdminPort
  httpAdminIp := (x.1.admin?.map BindAddress.srcIp).getD c.httpAdminIp
  connectionsPerThread := x.1.conperthread?.getD c.connectionsPerThread
  minimumServerReconnectionTime := x.1.retryserver?.getD c.minimumServerReconnectionTime
  bind := readItem (·.1.bind?) AppConfig.newBind (fun b x => addTo env x b) c.bind x
  currentBind := c.currentBind
  currentServer := c.currentServer
  currentTask := c.currentTask
  currentFilter := c.currentFilter
  currentAddress := c.currentAddress

theorem onLastBind_eq (c : AppConfig) (f : BindConf → BindConf) :
    c.onLastBind f = { c with bind := c.bind.modify (c.bind.length - 1) f } := by
  have hbind := AppConfig.bind_onLastBind c f
  by_cases hlength : 0 < c.bind.length
  · rw [AppConfig.onLastBind, if_pos hlength]
  · rw [AppConfig.onLastBind, if_neg hlength] at hbind ⊢
    rw [← hbind]

theorem bind_apply_of_none {x : Statement × Clock} (hbind : x.1.bind? = none) :
    (apply env c x).bind = c.bind.modify (c.bind.length - 1) (addTo env x) := by
  unfold apply readItem
  dsimp only
  rw [hbind]

theorem apply_of_adds {x : Statement × Clock} {f : BindConf → BindConf} (hf : addTo env x = f)
    (hbind : x.1.bind? = none) (hadmin : x.1.admin? = none) (hretry : x.1.retryserver? = none)
    (hconperthread : x.1.conperthread? = none) : apply env c x = c.onLastBind f := by
  have hbinds : (apply env c x).bind = _ := bind_apply_of_none hbind
  rw [onLastBind_eq, ← hf, ← hbinds]
  simp [apply, hadmin, hretry, hconperthread]

theorem bind_apply_of_not_adds {x : Statement × Clock} (hadds : addTo env x = id)
    (hbind : x.1.bind? = none) : (apply env c x).bind = c.bind := by
  rw [bind_apply_of_none hbind, hadds, List.modify_id]

theorem atoi_count (n : Count) : atoi (skipBlanks (' ' :: decimal n.value)) = n.value := by
  have hskip := skipBlanks_word (TaskEntry.isWord_decimal n.value) []
  rw [List.append_nil] at hskip
  rw [hskip]
  simpa using atoi_decimal n.value_lt endsNumber_nil

section Line

variable (hphost : ∀ ip : IpAddress, env.phostbyname ip.text = ip)

include hphost

theorem processConfigLine_bind_text (e : HostPort) :
    c.processConfigLine env ⟨"bind:".toList ++ e.text, clock⟩ =
      .ok (apply env c (bind e, clock)) := by
  rw [AppConfig.processConfigLine_bind, AppConfig.processBind, afterTag_self, Option.bind_some,
    e.addressOf_text hphost]
  simp [apply, readItem, bind?, admin?, conperthread?, retryserver?, AppConfig.newBind]

theorem processConfigLine_alsobind_text (e : HostPort) :
    c.processConfigLine env ⟨"alsobind:".toList ++ e.text, clock⟩ =
      .ok (apply env c (alsobind e, clock)) := by
  rw [AppConfig.processConfigLine_alsobind, AppConfig.processAlsobind, afterTag_self,
    Option.bind_some, e.addressOf_text hphost]
  refine congrArg _ (apply_of_adds (funext fun b => ?_) rfl rfl rfl rfl).symm
  simp [addTo, alsobind?, server?, task?, filter?]

theorem processConfigLine_server_text (s : ServerEntry) :
    c.processConfigLine env ⟨"server:".toList ++ s.text, clock⟩ =
      .ok (apply env c (server s, clock)) := by
  rw [AppConfig.processConfigLine_server, AppConfig.processServer, afterTag_self]
  dsimp only
  rw [s.serverOf_text hphost]
  refine congrArg _ (apply_of_adds (funext fun b => ?_) rfl rfl rfl rfl).symm
  simp [addTo, alsobind?, server?, task?, filter?]

theorem processConfigLine_filter_text (f : FilterEntry) :
    c.processConfigLine env ⟨"filter:".toList ++ f.text, clock⟩ =
      .ok (apply env c (filter f, clock)) := by
  rw [AppConfig.processConfigLine_filter, AppConfig.processFilter, afterTag_self,
    Option.bind_some, f.filterOf_text hphost]
  refine congrArg _ (apply_of_adds (funext fun b => ?_) rfl rfl rfl rfl).symm
  simp [addTo, alsobind?, server?, task?, filter?]

theorem processConfigLine_admin_text (e : HostPort) :
    c.processConfigLine env ⟨"admin:".toList ++ e.text, clock⟩ =
      .ok (apply env c (admin e, clock)) := by
  have hbind : (apply env c (admin e, clock)).bind = c.bind := bind_apply_of_not_adds
    (funext fun b => by simp [addTo, alsobind?, server?, task?, filter?]) rfl
  rw [AppConfig.processConfigLine_admin, AppConfig.processAdmin, afterTag_self,
    Option.bind_some, e.addressOf_text hphost]
  dsimp only
  rw [← hbind]
  simp [apply, admin?, retryserver?, conperthread?]

omit hphost

theorem processConfigLine_task_text (t : TaskEntry) (hvalid : t.ValidAt env clock) :
    c.processConfigLine env ⟨"task:".toList ++ t.text, clock⟩ =
      .ok (apply env c (task t, clock)) := by
  rw [AppConfig.processConfigLine_task, AppConfig.processTask, afterTag_self]
  dsimp only
  rw [t.taskOf_text hvalid]
  cases hinfo : t.info env clock with
  | none =>
      have hid : addTo env (task t, clock) = id :=
        funext fun b => by simp [addTo, alsobind?, server?, task?, filter?, hinfo]
      have hnothing : apply env c (task t, clock) = c := by
        rw [apply_of_adds hid rfl rfl rfl rfl, onLastBind_eq, List.modify_id]
      rw [hnothing]
      rfl
  | some info =>
      refine congrArg _ (apply_of_adds (funext fun b => ?_) rfl rfl rfl rfl).symm
      simp [addTo, alsobind?, server?, task?, filter?, hinfo]

theorem processConfigLine_retryserver_text (n : Count) :
    c.processConfigLine env ⟨"retryserver:".toList ++ ' ' :: decimal n.value, clock⟩ =
      .ok (apply env c (retryserver n, clock)) := by
  have hbind : (apply env c (retryserver n, clock)).bind = c.bind := bind_apply_of_not_adds
    (funext fun b => by simp [addTo, alsobind?, server?, task?, filter?]) rfl
  rw [AppConfig.processConfigLine_retry, AppConfig.processRetry, afterTag_self]
  dsimp only
  rw [atoi_count, ← hbind]
  simp [apply, admin?, retryserver?, conperthread?, Count.orDefault]

theorem processConfigLine_conperthread (s : List Char) :
    c.processConfigLine env ⟨"conperthread:".toList ++ s, clock⟩ =
      .ok (c.processConnectionsPerThread ("conperthread:".toList ++ s)) := by
  obtain ⟨hcomment, hother⟩ := startsOnly "conperthread:" (by decide +kernel) s
  generalize "conperthread:".toList ++ s = t at *
  simp only [tags, List.forall_mem_cons] at hother
  simp [AppConfig.processConfigLine, hcomment, hother]
  rfl

theorem processConfigLine_conperthread_text (n : Count) :
    c.processConfigLine env ⟨"conperthread:".toList ++ ' ' :: decimal n.value, clock⟩ =
      .ok (apply env c (conperthread n, clock)) := by
  have hbind : (apply env c (conperthread n, clock)).bind = c.bind := bind_apply_of_not_adds
    (funext fun b => by simp [addTo, alsobind?, server?, task?, filter?]) rfl
  rw [processConfigLine_conperthread, AppConfig.processConnectionsPerThread, afterTag_self]
  dsimp only
  rw [atoi_count, ← hbind]
  simp [apply, admin?, retryserver?, conperthread?, Count.orDefault]

end Line

theorem processConfigLine_text (hphost : ∀ ip : IpAddress, env.phostbyname ip.text = ip)
    (s : Statement) (hvalid : s.ValidAt env clock) :
    c.processConfigLine env ⟨s.text, clock⟩ = .ok (apply env c (s, clock)) := by
  cases s with
  | bind e => exact processConfigLine_bind_text hphost e
  | alsobind e => exact processConfigLine_alsobind_text hphost e
  | server s => exact processConfigLine_server_text hphost s
  | retryserver n => exact processConfigLine_retryserver_text n
  | filter f => exact processConfigLine_filter_text hphost f
  | admin e => exact processConfigLine_admin_text hphost e
  | task t => exact processConfigLine_task_text t hvalid
  | conperthread n => exact processConfigLine_conperthread_text n

/-! ## The file -/

section File

variable {lines : List ConfigLine} {l : List (Statement × Clock)}

/-- A comment or an empty line. -/
def isPassed (x : ConfigLine) : Bool := x.text.head?.all fun a => a == '/' || a == ';' || a == '#'

theorem processConfigLine_passed {x : ConfigLine} (h : isPassed x = true) :
    c.processConfigLine env x = .ok c := by
  obtain ⟨text, clock⟩ := x
  cases text with
  | nil =>
      have hother : ∀ tag ∈ tags, afterTag tag [] = none := by decide +kernel
      simp only [tags, List.forall_mem_cons] at hother
      simp [AppConfig.processConfigLine, hother]
      rfl
  | cons a text =>
      have hcomment : a = '/' ∨ a = ';' ∨ a = '#' := by simpa [isPassed, or_assoc] using h
      simp [AppConfig.processConfigLine, hcomment]

def line (x : Statement × Clock) : ConfigLine := ⟨x.1.text, x.2⟩

theorem foldlM_lines (hphost : ∀ ip : IpAddress, env.phostbyname ip.text = ip)
    (hlines : lines.filter (!isPassed ·) = l.map line) (hvalid : ∀ x ∈ l, x.1.ValidAt env x.2) :
    lines.foldlM (AppConfig.processConfigLine env) c = .ok (l.foldl (apply env) c) := by
  induction lines generalizing l c with
  | nil =>
      obtain rfl := List.map_eq_nil_iff.mp hlines.symm
      rfl
  | cons x lines ih =>
      rw [List.foldlM_cons]
      cases hpassed : isPassed x with
      | true =>
          rw [List.filter_cons_of_neg (by simp [hpassed])] at hlines
          rw [processConfigLine_passed hpassed]
          exact ih hlines hvalid
      | false =>
          rw [List.filter_cons_of_pos (by simp [hpassed])] at hlines
          obtain ⟨y, l, rfl, rfl, hrest⟩ := List.map_eq_cons_iff.mp hlines.symm
          rw [List.forall_mem_cons] at hvalid
          have hy : c.processConfigLine env (line y) = .ok (apply env c y) :=
            processConfigLine_text hphost y.1 hvalid.1
          rw [hy]
          exact ih hrest.symm hvalid.2

theorem foldl_apply (l : List (Statement × Clock)) (c : AppConfig) :
    l.foldl (apply env) c =
      { c with
        bind := l.foldl (readItem (·.1.bind?) AppConfig.newBind fun b x => addTo env x b) c.bind
        minimumServerReconnectionTime := l.foldl (fun b x => x.1.retryserver?.getD b)
          c.minimumServerReconnectionTime
        connectionsPerThread := l.foldl (fun b x => x.1.conperthread?.getD b)
          c.connectionsPerThread
        httpAdminEnabled := l.foldl (fun b x => (x.1.admin?.map fun _ => true).getD b)
          c.httpAdminEnabled
        httpAdminIp := l.foldl (fun b x => (x.1.admin?.map BindAddress.srcIp).getD b)
          c.httpAdminIp
        httpAdminPort := l.foldl (fun b x => (x.1.admin?.map BindAddress.srcPort).getD b)
          c.httpAdminPort } := by
  induction l generalizing c with
  | nil => rfl
  | cons x l ih => exact ih (apply env c x)

theorem groupOf_addTo (s : BindAddress × List (Statement × Clock)) :
    groupOf AppConfig.newBind (fun b x => addTo env x b) s = sectionConf env s := by
  have hcons : ∀ {α : Type} (f : Statement × Clock → Option α) x l,
      (x :: l).filterMap f = (f x).toList ++ l.filterMap f := by
    intro α f x l
    rw [List.filterMap_cons]
    cases f x <;> rfl
  have hfold : ∀ (l : List (Statement × Clock)) (b : BindConf),
      l.foldl (fun b x => addTo env x b) b =
        ⟨b.address ++ l.filterMap (·.1.alsobind?), b.dst ++ l.filterMap (·.1.server?),
          b.tasks ++ l.filterMap (fun x => x.1.task? env x.2),
          b.filter ++ l.filterMap (·.1.filter?)⟩ := by
    intro l
    induction l with
    | nil => simp
    | cons x l ih =>
        intro b
        rw [List.foldl_cons, ih]
        simp [addTo, hcons]
  exact hfold s.2 (AppConfig.newBind s.1)

theorem foldl_apply_create (path : String) :
    l.foldl (apply env) (AppConfig.create path) = meaning env path l := by
  have hadmin : ∀ {α : Type} (f : BindAddress → α) (b : α),
      l.foldl (fun b x => (x.1.admin?.map f).getD b) b =
        ((l.filterMap (·.1.admin?)).getLast?.map f).getD b := by
    intro α f b
    rw [foldl_getD, ← List.getLast?_map, List.map_filterMap]
  have hbinds : l.foldl (readItem (·.1.bind?) AppConfig.newBind fun b x => addTo env x b) [] =
      (sections (·.1.bind?) l).map (sectionConf env) := by
    rw [foldl_readItem_nil]
    exact List.map_congr_left fun s _ => groupOf_addTo s
  rw [foldl_apply, hadmin, hadmin, hadmin, foldl_getD, foldl_getD]
  unfold meaning
  dsimp only [AppConfig.create]
  rw [hbinds]

namespace Sample

def first : HostPort := ⟨⟨10, 0, 0, 1⟩, 80, by decide, by decide⟩

def second : HostPort := ⟨⟨10, 0, 0, 2⟩, 81, by decide, by decide⟩

def weighted : ServerEntry := ⟨second, 5, 20, by decide, by decide⟩

def denied : FilterEntry :=
  ⟨⟨⟨10, 0, 0, 0⟩, ⟨255, 0, 0, 0⟩, ⟨10, 0, 0, 2⟩, ipnone, false⟩, by decide, by decide⟩

def purge : TaskEntry :=
  ⟨.purgeConnections, 3600, some (.today ⟨12, 30, 0, by decide, by decide, by decide⟩), by decide,
    by decide, nofun⟩

def once : TaskEntry :=
  ⟨.cleanConnections, 0, some (.today ⟨23, 0, 0, by decide, by decide, by decide⟩), by decide,
    by decide, nofun⟩

def morning : Clock := ⟨122400000, 122400000⟩

def statements : List (Statement × Clock) :=
  [.admin first, .retryserver ⟨60, by decide⟩, .bind first, .task purge, .server weighted,
    .filter denied, .bind second, .task once].map (·, morning)

def file : List ConfigLine :=
  ⟨"# a file".toList, morning⟩ :: ⟨[], morning⟩ :: statements.map line

end Sample

end File

end Statement

end Relb
