import Mathlib.Algebra.Group.Int.Defs
import Relb.Model.Utiles
/-!
# `AppConfig`: the configuration file

A line is kept as the characters before its NUL, and a pointer into it as what is left of the
line from there on, empty at the NUL. A step over the NUL and a division by zero are faults.
Each line is processed at one clock value. The functions of ptypes and the checks of sockets
are parameters. Tracing, the host names of the servers and the settings that nothing reads are
left out.
-/

namespace Relb

/-! ## The C library -/

/-- The whitespace that `atoi` skips. -/
def isSpace (c : Char) : Bool := c == ' ' || ('\t' ≤ c && c ≤ '\r')

/-- The number that the digits in front stand for. -/
def leadingNumber (s : List Char) : Nat :=
  (s.takeWhile Char.isDigit).foldl (fun n c => 10 * n + (c.toNat - '0'.toNat)) 0

/-- `atoi`, which is `strtol` cut to an `int`; a `long` has 64 bits. -/
def atoi (s : List Char) : Int :=
  let n : Int :=
    match s.dropWhile isSpace with
    | '-' :: s => -leadingNumber s
    | '+' :: s => leadingNumber s
    | s => leadingNumber s
  toInt (max (-2 ^ 63) (min n (2 ^ 63 - 1)))

example : atoi " -42,7".toList = -42 := by decide +kernel

/-- `1 << n` for an `int`, whose count is taken modulo 32. -/
def oneShl (n : Int) : Int := 2 ^ (n % 32).toNat

/-! ## Records -/

/-- `ipany`. -/
def ipany : IpAddress := ⟨0, 0, 0, 0⟩

/-- `ipnone`. -/
def ipnone : IpAddress := ⟨255, 255, 255, 255⟩

/-- `TASK_TYPE`. -/
inductive TaskType
  | invalidTask
  | updateServerInfo
  | cleanConnections
  | purgeConnections
  deriving DecidableEq, Repr

structure TaskInfo where
  taskType : TaskType
  runIntervalSeconds : Int
  nextRunTime : Datetime
  fixedTime : Bool
  deriving DecidableEq, Repr

structure BindAddress where
  srcIp : IpAddress
  srcPort : UInt16
  deriving DecidableEq, Repr

structure DstConf where
  dstIp : IpAddress
  dstPort : UInt16
  weight : Int
  maxConnections : Int
  deriving DecidableEq, Repr

structure BindConf where
  address : List BindAddress
  dst : List DstConf
  tasks : List TaskInfo
  filter : List FilterInfo
  deriving DecidableEq, Repr

/-- The resolver, the checks of sockets and the calendar. -/
structure Env where
  phostbyname : List Char → IpAddress
  checkIpBindable : IpAddress → Bool
  checkIpPortBindable : IpAddress → UInt16 → Bool
  isvalid : Datetime → Bool
  encodedate : Int → Int → Int → Datetime
  encodetime : Int → Int → Int → Datetime
  decodedate : Datetime → Int × Int × Int

/-- `NOW_UTC` and `NOW_LOCALTIME`. -/
structure Clock where
  nowUtc : Datetime
  nowLocaltime : Datetime

/-- A line of the file, with the clock when it is processed. -/
structure ConfigLine where
  text : List Char
  clock : Clock

inductive Fault
  | overread
  | divisionByZero
  deriving DecidableEq, Repr

/-! ## The values of a line -/

/-- `strncmp( s, word, strlen( word ) ) == 0`. -/
def startsWith (s : List Char) (word : String) : Bool := word.toList.isPrefixOf s

/-- What is behind the tag of a line that starts with it. -/
def afterTag (tag : String) (s : List Char) : Option (List Char) :=
  if startsWith s tag then some (s.drop tag.toList.length) else none

def isBlank (c : Char) : Bool := c == ' ' || c == '\t'

def skipBlanks (s : List Char) : List Char := s.dropWhile isBlank

/-- `h++` without a test. -/
def advance : List Char → Except Fault (List Char)
  | [] => .error .overread
  | _ :: s => .ok s

/-- Behind the next comma or space. -/
def nextField (s : List Char) : List Char := (s.dropWhile fun c => c ≠ ',' && c ≠ ' ').drop 1

/-- At the next word. -/
def nextWord (s : List Char) : List Char := (s.dropWhile (· ≠ ' ')).dropWhile (· == ' ')

/-- Behind the next `c`. -/
def afterChar (c : Char) (s : List Char) : List Char := (s.dropWhile (· ≠ c)).drop 1

/-- The end of a host name in a `bind`, `server` or `admin` line. -/
def isHostEnd (c : Char) : Bool := c == ',' || c == ':'

/-- `[address:]port`, of a `bind`, an `alsobind` or an `admin` line; without an address it is
`dflt`. -/
def addressOf (env : Env) (dflt : IpAddress) (s : List Char) : Option BindAddress :=
  let s := skipBlanks s
  let (ip, s) :=
    match s.dropWhile (!isHostEnd ·) with
    | ':' :: t =>
        let ip := env.phostbyname (s.takeWhile (!isHostEnd ·))
        (if ip = ipnone then ipany else ip, t)
    | _ => (dflt, s)
  let port := UInt16.ofInt (atoi s)
  if port = 0 then none else some ⟨ip, port⟩

/-- `host:port[,weight[,max_connections]]`. Behind the host the index moves on even if the line
has ended. -/
def serverOf (env : Env) (s : List Char) : Except Fault (Option DstConf) := do
  let s := skipBlanks s
  let ip := env.phostbyname (s.takeWhile (!isHostEnd ·))
  let s ← advance (s.dropWhile (!isHostEnd ·))
  let port := UInt16.ofInt (atoi s)
  let s := nextField (s.drop 1)
  let weight := atoi s
  let s := nextField s
  let maxConnections := atoi s
  return if ip ≠ ipnone ∧ port ≠ 0 then some ⟨ip, port, weight, maxConnections⟩ else none

/-- The mask with `n` leading ones. -/
def prefixMask (n : Int) : IpAddress where
  data0 := UInt8.ofInt (if n > 7 then 255 else 256 - oneShl (8 - n))
  data1 := UInt8.ofInt (if n > 15 then 255 else if n < 9 then 0 else 256 - oneShl (8 - (n - 8)))
  data2 := UInt8.ofInt (if n > 23 then 255 else if n < 17 then 0 else 256 - oneShl (8 - (n - 16)))
  data3 := UInt8.ofInt (if n > 31 then 255 else if n < 25 then 0 else 256 - oneShl (8 - (n - 24)))

/-- A mask at `s`; a field of at most two characters is read as a number. -/
def maskOf (env : Env) (field s : List Char) : IpAddress :=
  if 2 < field.length then env.phostbyname field else prefixMask (atoi s)

/-- The end of an address or of the first mask in a `filter` line. -/
def isFilterEnd (c : Char) : Bool := c == '/' || c == ' '

/-- `client_ip/mask server_ip/mask action`; any action but `deny` allows. -/
def filterOf (env : Env) (s : List Char) : Option FilterInfo :=
  let s := skipBlanks s
  let srcIp := env.phostbyname (s.takeWhile (!isFilterEnd ·))
  let s := (s.dropWhile (!isFilterEnd ·)).drop 1
  let srcMask := maskOf env (s.takeWhile (!isFilterEnd ·)) s
  let s := (s.dropWhile (!isFilterEnd ·)).drop 1
  let dstIp := env.phostbyname (s.takeWhile (!isFilterEnd ·))
  let s := (s.dropWhile (!isFilterEnd ·)).drop 1
  let dstMask := maskOf env (s.takeWhile (!isBlank ·)) s
  let s := s.dropWhile (!isBlank ·)
  let allow := !startsWith (s.drop 1) "deny"
  if srcIp ≠ ipnone ∧ dstIp ≠ ipnone then some ⟨srcIp, srcMask, dstIp, dstMask, allow⟩ else none

/-- `hh:mm:ss`. -/
def timeOf (env : Env) (s : List Char) : Datetime :=
  let min := afterChar ':' s
  let sec := afterChar ':' min
  env.encodetime (atoi s) (atoi min) (atoi sec)

/-- The first execution: a time of today, `YYYYMMDD` or `YYYY/MM/DD`, and maybe a time. -/
def firstRunOf (env : Env) (clock : Clock) (s : List Char) : Datetime :=
  let offset := clock.nowLocaltime - clock.nowUtc
  if atoi s < 24 then
    let (year, month, day) := env.decodedate clock.nowUtc
    env.encodedate year month day + timeOf env s - offset
  else if atoi s > 9999 then
    let year := (atoi s).tdiv 10000
    let month := (atoi s - year * 10000).tdiv 100
    let day := atoi s - year * 10000 - month * 100
    env.encodedate year month day - offset + timeOf env (nextWord s)
  else
    let month := afterChar '/' s
    let day := afterChar '/' month
    env.encodedate (atoi s) (atoi month) (atoi day) - offset + timeOf env (nextWord day)

/-- A first execution in the past moves on by whole intervals. -/
def catchUp (now : Datetime) (interval : Int) (firstRun : Datetime) : Except Fault Datetime :=
  let period := toInt (1000 * interval)
  if period = 0 then .error .divisionByZero
  else .ok (firstRun + ((now - firstRun).tdiv period + 1) * period)

/-- The last of the three tests that holds decides, and without one it is a cleanup. -/
def taskTypeOf (s : List Char) : TaskType :=
  if startsWith s "purge" then .purgeConnections
  else if startsWith s "clean" then .cleanConnections
  else if startsWith s "update" then .updateServerInfo
  else .cleanConnections

/-- `task_type interval_seconds [first_run]`. With a first run the interval is only checked if
it is needed. -/
def taskOf (env : Env) (clock : Clock) (s : List Char) : Except Fault (Option TaskInfo) :=
  let s := skipBlanks s
  let taskType := taskTypeOf s
  let s := nextWord s
  let interval := atoi s
  let s := nextWord s
  if s = [] then
    .ok (if interval ≤ 0 then none
      else some ⟨taskType, interval, clock.nowUtc + interval, false⟩)
  else
    let firstRun := firstRunOf env clock s
    if !env.isvalid firstRun then .ok none
    else if firstRun < clock.nowUtc then
      if 0 < interval then
        (catchUp clock.nowUtc interval firstRun).map fun next =>
          some ⟨taskType, interval, next, true⟩
      else .ok none
    else .ok (some ⟨taskType, interval, firstRun, true⟩)

/-! ## The class -/

structure AppConfig where
  configfile : String
  httpAdminEnabled : Bool
  httpAdminPort : UInt16
  httpAdminIp : IpAddress
  connectionsPerThread : Int
  minimumServerReconnectionTime : Int
  bind : List BindConf
  currentBind : Int
  currentServer : Int
  currentTask : Int
  currentFilter : Int
  currentAddress : Int

namespace AppConfig

/-- The constructor and `setFilePath`; no file is `""`. The settings get their values from
`setDefaultValues`. -/
def create (configfile : String) : AppConfig where
  configfile := configfile
  httpAdminEnabled := false
  httpAdminPort := 8182
  httpAdminIp := ipany
  connectionsPerThread := 16
  minimumServerReconnectionTime := 30
  bind := []
  currentBind := 0
  currentServer := 0
  currentTask := -1
  currentFilter := 0
  currentAddress := 0

def setDefaultValues (c : AppConfig) : AppConfig :=
  { c with
    bind := []
    httpAdminPort := 8182
    connectionsPerThread := 16
    httpAdminEnabled := false
    httpAdminIp := ipany
    minimumServerReconnectionTime := 30 }

/-- `bind[bind.get_count() - 1]`, if there is a bind. -/
def onLastBind (c : AppConfig) (f : BindConf → BindConf) : AppConfig :=
  if 0 < c.bind.length then { c with bind := c.bind.modify (c.bind.length - 1) f } else c

/-! ### `processConfigLine`, tag by tag -/

def processBind (env : Env) (s : List Char) (c : AppConfig) : AppConfig :=
  match (afterTag "bind:" s).bind (addressOf env ipany) with
  | some address => { c with bind := c.bind ++ [⟨[address], [], [], []⟩] }
  | none => c

def processAlsobind (env : Env) (s : List Char) (c : AppConfig) : AppConfig :=
  match (afterTag "alsobind:" s).bind (addressOf env ipany) with
  | some address => c.onLastBind fun b => { b with address := b.address ++ [address] }
  | none => c

def processServer (env : Env) (s : List Char) (c : AppConfig) : Except Fault AppConfig :=
  match afterTag "server:" s with
  | some s => (serverOf env s).map fun
      | some dst => c.onLastBind fun b => { b with dst := b.dst ++ [dst] }
      | none => c
  | none => .ok c

def processRetry (s : List Char) (c : AppConfig) : AppConfig :=
  match afterTag "retryserver:" s with
  | some s =>
      let seconds := atoi (skipBlanks s)
      { c with minimumServerReconnectionTime := if seconds = 0 then 30 else seconds }
  | none => c

def processFilter (env : Env) (s : List Char) (c : AppConfig) : AppConfig :=
  match (afterTag "filter:" s).bind (filterOf env) with
  | some filter => c.onLastBind fun b => { b with filter := b.filter ++ [filter] }
  | none => c

def processAdmin (env : Env) (s : List Char) (c : AppConfig) : AppConfig :=
  match (afterTag "admin:" s).bind (addressOf env ⟨127, 0, 0, 1⟩) with
  | some address =>
      { c with
        httpAdminIp := address.srcIp
        httpAdminPort := address.srcPort
        httpAdminEnabled := true }
  | none => c

def processTask (env : Env) (clock : Clock) (s : List Char) (c : AppConfig) :
    Except Fault AppConfig :=
  match afterTag "task:" s with
  | some s => (taskOf env clock s).map fun
      | some task => c.onLastBind fun b => { b with tasks := b.tasks ++ [task] }
      | none => c
  | none => .ok c

def processConnectionsPerThread (s : List Char) (c : AppConfig) : AppConfig :=
  match afterTag "conperthread:" s with
  | some s =>
      let connections := atoi (skipBlanks s)
      { c with connectionsPerThread := if connections = 0 then 16 else connections }
  | none => c

/-- A comment does nothing, and any other line is shown to every tag. -/
def processConfigLine (env : Env) (c : AppConfig) (line : ConfigLine) :
    Except Fault AppConfig :=
  let s := line.text
  if s.head? = some '/' ∨ s.head? = some ';' ∨ s.head? = some '#' then .ok c
  else do
    let c ← ((c.processBind env s).processAlsobind env s).processServer env s
    let c ← (((c.processRetry s).processFilter env s).processAdmin env s).processTask env
      line.clock s
    return c.processConnectionsPerThread s

/-! ### Loading -/

/-- `loadFile`; a file that cannot be opened is `none`. -/
def loadFile (env : Env) (files : String → Option (List ConfigLine)) (c : AppConfig) :
    Except Fault (Bool × AppConfig) :=
  let c := c.setDefaultValues
  match files c.configfile with
  | some lines => do
      let c ← (lines.take 4000).foldlM (processConfigLine env) c
      return (true, c)
  | none => .ok (false, c.setDefaultValues)

/-- `checkConfig`. -/
def checkConfig (env : Env) (c : AppConfig) : Bool :=
  let available := fun (a : BindAddress) =>
    env.checkIpBindable a.srcIp && env.checkIpPortBindable a.srcIp a.srcPort
  (!c.httpAdminEnabled || available ⟨c.httpAdminIp, c.httpAdminPort⟩) && !c.bind.isEmpty &&
    c.bind.all fun b => !b.address.isEmpty && b.address.all available && !b.dst.isEmpty

/-- The files that `loadConfig` tries, on Linux. -/
def loadFiles (env : Env) (files : String → Option (List ConfigLine)) (c : AppConfig) :
    Except Fault (Bool × AppConfig) :=
  if c.configfile ≠ "" then c.loadFile env files
  else do
    let r ← loadFile env files { c with configfile := "relb.conf" }
    if r.1 then return r
    else loadFile env files { r.2 with configfile := "/etc/relb.conf" }

def loadConfig (env : Env) (files : String → Option (List ConfigLine)) (c : AppConfig) :
    Except Fault (Bool × AppConfig) := do
  let r ← c.loadFiles env files
  return (r.1 && r.2.checkConfig env, r.2)

/-! ## Iterators -/

/-- `l[i]`, if `i` is in the list. -/
def at? {α : Type} (l : List α) (i : Int) : Option α := if 0 ≤ i then l[i.toNat]? else none

def theBind (c : AppConfig) : Option BindConf := at? c.bind c.currentBind

/-- The index `i` is in a list of the current bind. -/
def inBind {α : Type} (c : AppConfig) (list : BindConf → List α) (i : Int) : Bool :=
  c.theBind.any fun b => decide (i < (list b).length)

/-- What stands at the index `i` in a list of the current bind. -/
def ofBind {α : Type} (c : AppConfig) (list : BindConf → List α) (i : Int) : Option α :=
  c.theBind.bind fun b => at? (list b) i

def getFirstBind (c : AppConfig) : Bool × AppConfig :=
  let c := { c with currentBind := 0 }
  (decide (c.currentBind < c.bind.length), c)

def getNextAddress (c : AppConfig) : Bool × AppConfig :=
  let c := { c with currentAddress := c.currentAddress + 1 }
  (c.inBind BindConf.address c.currentAddress, c)

def getNextServer (c : AppConfig) : Bool × AppConfig :=
  let c := { c with currentServer := c.currentServer + 1 }
  (c.inBind BindConf.dst c.currentServer, c)

/-- The count, and the index before the first task. -/
def getTasksCount (c : AppConfig) : Nat × AppConfig :=
  ((c.theBind.map fun b => b.tasks.length).getD 0, { c with currentTask := -1 })

def getNextTask (c : AppConfig) : Bool × AppConfig :=
  let c := { c with currentTask := c.currentTask + 1 }
  (c.inBind BindConf.tasks c.currentTask, c)

def getFilterCount (c : AppConfig) : Nat × AppConfig :=
  ((c.theBind.map fun b => b.filter.length).getD 0, { c with currentFilter := -1 })

def getNextFilter (c : AppConfig) : Bool × AppConfig :=
  let c := { c with currentFilter := c.currentFilter + 1 }
  (c.inBind BindConf.filter c.currentFilter, c)

/-! ### Getters, with what they return without an element -/

def getAddressIP (c : AppConfig) : IpAddress :=
  ((c.ofBind BindConf.address c.currentAddress).map BindAddress.srcIp).getD ipany

def getAddressPort (c : AppConfig) : UInt16 :=
  ((c.ofBind BindConf.address c.currentAddress).map BindAddress.srcPort).getD 0

def getServerIP (c : AppConfig) : IpAddress :=
  ((c.ofBind BindConf.dst c.currentServer).map DstConf.dstIp).getD ipnone

def getServerPort (c : AppConfig) : UInt16 :=
  ((c.ofBind BindConf.dst c.currentServer).map DstConf.dstPort).getD 0

def getServerWeight (c : AppConfig) : Int :=
  ((c.ofBind BindConf.dst c.currentServer).map DstConf.weight).getD 0

def getServerMaxConnections (c : AppConfig) : Int :=
  ((c.ofBind BindConf.dst c.currentServer).map DstConf.maxConnections).getD 0

def getTaskType (c : AppConfig) : TaskType :=
  ((c.ofBind BindConf.tasks c.currentTask).map TaskInfo.taskType).getD .invalidTask

def getTaskInterval (c : AppConfig) : Int :=
  ((c.ofBind BindConf.tasks c.currentTask).map TaskInfo.runIntervalSeconds).getD 0

def getTaskFixedTime (c : AppConfig) : Bool :=
  ((c.ofBind BindConf.tasks c.currentTask).map TaskInfo.fixedTime).getD false

def getTaskFirstRun (c : AppConfig) : Datetime :=
  ((c.ofBind BindConf.tasks c.currentTask).map TaskInfo.nextRunTime).getD 0

def getFilterSourceIP (c : AppConfig) : IpAddress :=
  ((c.ofBind BindConf.filter c.currentFilter).map FilterInfo.srcIp).getD ipany

def getFilterSourceMask (c : AppConfig) : IpAddress :=
  ((c.ofBind BindConf.filter c.currentFilter).map FilterInfo.srcMask).getD ipany

def getFilterDestIP (c : AppConfig) : IpAddress :=
  ((c.ofBind BindConf.filter c.currentFilter).map FilterInfo.dstIp).getD ipany

def getFilterDestMask (c : AppConfig) : IpAddress :=
  ((c.ofBind BindConf.filter c.currentFilter).map FilterInfo.dstMask).getD ipany

def getFilterAllow (c : AppConfig) : Bool :=
  ((c.ofBind BindConf.filter c.currentFilter).map FilterInfo.allow).getD true

end AppConfig

end Relb
