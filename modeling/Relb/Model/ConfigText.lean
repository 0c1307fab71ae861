import Relb.Lib.Cursor
import Relb.Model.AppConfig
/-!
# `processConfigLine`, index by index

The same parsers as in `AppConfig`, as the code has them: a line is read one character at a time
through an index, and so do `atoi`, `strncmp` and `strncpy` from where they are pointed to. What is
read behind the NUL of the line is a fault.
-/

namespace Relb

open Lib

namespace ConfigText

/-! ## Reading -/

/-- `line[h]`, `none` at the NUL. -/
def charAt (line : List Char) (h : Nat) : Except Fault (Option Char) := readAt .overread line h

/-- A loop over `h`, which the NUL ends. -/
def scan (p : Char → Bool) (line : List Char) (h : Nat) : Except Fault Nat :=
  scanWhile .overread p line h

/-- `if( line[h] != NULL ) h++`. -/
def stepOver (line : List Char) (h : Nat) : Except Fault Nat := do
  let c ← charAt line h
  return if c.isSome then h + 1 else h

/-- `strncpy( name, &line[h], n )`. -/
def copy (line : List Char) (h n : Nat) : Except Fault (List Char) := copyAt .overread line n h

/-- `strncmp( &line[h], word, strlen( word ) ) == 0`. -/
def startsWith (line : List Char) (h : Nat) (word : String) : Except Fault Bool :=
  matchAt .overread line word.toList h

/-- `atoi( &line[h] )`. -/
def atoi (line : List Char) (h : Nat) : Except Fault Int := do
  let h ← scan isSpace line h
  let sign ← charAt line h
  let first := if sign = some '-' ∨ sign = some '+' then h + 1 else h
  let (value, _) ← foldWhile .overread Char.isDigit
    (fun n c => 10 * n + (c.toNat - '0'.toNat)) line 0 first
  let n : Int := if sign = some '-' then -value else value
  return toInt (max (-2 ^ 63) (min n (2 ^ 63 - 1)))

/-! ## The values of a line -/

def nextField (line : List Char) (h : Nat) : Except Fault Nat := do
  let h ← scan (fun c => c ≠ ',' && c ≠ ' ') line h
  let c ← charAt line h
  return if c = some ',' ∨ c = some ' ' then h + 1 else h

def nextWord (line : List Char) (h : Nat) : Except Fault Nat := do
  let h ← scan (· ≠ ' ') line h
  scan (· == ' ') line h

def afterChar (c : Char) (line : List Char) (h : Nat) : Except Fault Nat := do
  let h ← scan (· ≠ c) line h
  stepOver line h

def addressOf (env : Env) (dflt : IpAddress) (line : List Char) (h : Nat) :
    Except Fault (Option BindAddress) := do
  let h ← scan isBlank line h
  let g ← scan (!isHostEnd ·) line h
  let c ← charAt line g
  let (ip, h) ←
    if c = some ':' then do
      let name ← copy line h (g - h)
      let ip := env.phostbyname name
      pure (if ip = ipnone then ipany else ip, g + 1)
    else pure (dflt, h)
  let port := UInt16.ofInt (← atoi line h)
  return if port = 0 then none else some ⟨ip, port⟩

/-- Behind the host `h` moves on at the NUL too. -/
def serverOf (env : Env) (line : List Char) (h : Nat) : Except Fault (Option DstConf) := do
  let h ← scan isBlank line h
  let g ← scan (!isHostEnd ·) line h
  let name ← copy line h (g - h)
  let ip := env.phostbyname name
  let c ← charAt line g
  let h := if c = some ',' ∨ c = some ':' ∨ c = none then g + 1 else g
  let port := UInt16.ofInt (← atoi line h)
  let h ← stepOver line h
  let h ← nextField line h
  let weight ← atoi line h
  let h ← nextField line h
  let maxConnections ← atoi line h
  return if ip ≠ ipnone ∧ port ≠ 0 then some ⟨ip, port, weight, maxConnections⟩ else none

/-- A mask of `i` characters at `h`. -/
def maskOf (env : Env) (line : List Char) (h i : Nat) : Except Fault IpAddress := do
  if 2 < i then
    let name ← copy line h i
    return env.phostbyname name
  else
    let n ← atoi line h
    return prefixMask n

/-- A host or a mask that ends where `isEnd` says, with the index behind it. -/
def hostAt (env : Env) (isEnd : Char → Bool) (line : List Char) (h : Nat) :
    Except Fault (IpAddress × Nat) := do
  let g ← scan (!isEnd ·) line h
  let name ← copy line h (g - h)
  return (env.phostbyname name, g)

def maskAt (env : Env) (isEnd : Char → Bool) (line : List Char) (h : Nat) :
    Except Fault (IpAddress × Nat) := do
  let g ← scan (!isEnd ·) line h
  let mask ← maskOf env line h (g - h)
  return (mask, g)

/-- The action is behind `h`, if the line does not end there. -/
def isDenied (line : List Char) (h : Nat) : Except Fault Bool := do
  let c ← charAt line h
  if c.isSome then startsWith line (h + 1) "deny" else return false

def filterOf (env : Env) (line : List Char) (h : Nat) : Except Fault (Option FilterInfo) := do
  let h ← scan isBlank line h
  let (srcIp, h) ← hostAt env isFilterEnd line h
  let h ← stepOver line h
  let (srcMask, h) ← maskAt env isFilterEnd line h
  let h ← stepOver line h
  let (dstIp, h) ← hostAt env isFilterEnd line h
  let h ← stepOver line h
  let (dstMask, h) ← maskAt env isBlank line h
  let deny ← isDenied line h
  return if srcIp ≠ ipnone ∧ dstIp ≠ ipnone then some ⟨srcIp, srcMask, dstIp, dstMask, !deny⟩
    else none

def timeOf (env : Env) (line : List Char) (h : Nat) : Except Fault Datetime := do
  let hour ← atoi line h
  let h ← afterChar ':' line h
  let min ← atoi line h
  let h ← afterChar ':' line h
  let sec ← atoi line h
  return env.encodetime hour min sec

def firstRunOf (env : Env) (clock : Clock) (line : List Char) (h : Nat) :
    Except Fault Datetime := do
  let offset := clock.nowLocaltime - clock.nowUtc
  let n ← atoi line h
  if n < 24 then
    let time ← timeOf env line h
    let (year, month, day) := env.decodedate clock.nowUtc
    return env.encodedate year month day + time - offset
  else if n > 9999 then
    let year := n.tdiv 10000
    let month := (n - year * 10000).tdiv 100
    let day := n - year * 10000 - month * 100
    let time ← timeOf env line (← nextWord line h)
    return env.encodedate year month day - offset + time
  else
    let h ← afterChar '/' line h
    let month ← atoi line h
    let h ← afterChar '/' line h
    let day ← atoi line h
    let time ← timeOf env line (← nextWord line h)
    return env.encodedate n month day - offset + time

def taskTypeOf (line : List Char) (h : Nat) : Except Fault TaskType := do
  let update ← startsWith line h "update"
  let clean ← startsWith line h "clean"
  let purge ← startsWith line h "purge"
  return if purge then .purgeConnections
    else if clean then .cleanConnections
    else if update then .updateServerInfo
    else .cleanConnections

def taskOf (env : Env) (clock : Clock) (line : List Char) (h : Nat) :
    Except Fault (Option TaskInfo) := do
  let h ← scan isBlank line h
  let taskType ← taskTypeOf line h
  let h ← nextWord line h
  let interval ← atoi line h
  let h ← nextWord line h
  let c ← charAt line h
  if c = none then
    return if interval ≤ 0 then none
      else some ⟨taskType, interval, clock.nowUtc + interval, false⟩
  else
    let firstRun ← firstRunOf env clock line h
    if !env.isvalid firstRun then return none
    else if firstRun < clock.nowUtc then
      if 0 < interval then
        (catchUp clock.nowUtc interval firstRun).map fun next =>
          some ⟨taskType, interval, next, true⟩
      else return none
    else return some ⟨taskType, interval, firstRun, true⟩

/-- A number behind blanks. -/
def numberOf (line : List Char) (h : Nat) : Except Fault Int := do
  let h ← scan isBlank line h
  atoi line h

/-! ## The tags -/

/-- What the parser of a tag reads in a line that starts with it. -/
def entryOf {α : Type} (tag : String) (parse : List Char → Nat → Except Fault (Option α))
    (line : List Char) : Except Fault (Option α) := do
  if ← startsWith line 0 tag then parse line tag.toList.length else return none

def processBind (env : Env) (line : List Char) (c : AppConfig) : Except Fault AppConfig := do
  match ← entryOf "bind:" (addressOf env ipany) line with
  | some address => return { c with bind := c.bind ++ [⟨[address], [], [], []⟩] }
  | none => return c

def processAlsobind (env : Env) (line : List Char) (c : AppConfig) : Except Fault AppConfig := do
  match ← entryOf "alsobind:" (addressOf env ipany) line with
  | some address => return c.onLastBind fun b => { b with address := b.address ++ [address] }
  | none => return c

def processServer (env : Env) (line : List Char) (c : AppConfig) : Except Fault AppConfig := do
  match ← entryOf "server:" (serverOf env) line with
  | some dst => return c.onLastBind fun b => { b with dst := b.dst ++ [dst] }
  | none => return c

def processRetry (line : List Char) (c : AppConfig) : Except Fault AppConfig := do
  match ← entryOf "retryserver:" (fun line h => some <$> numberOf line h) line with
  | some seconds =>
      return { c with minimumServerReconnectionTime := if seconds = 0 then 30 else seconds }
  | none => return c

def processFilter (env : Env) (line : List Char) (c : AppConfig) : Except Fault AppConfig := do
  match ← entryOf "filter:" (filterOf env) line with
  | some filter => return c.onLastBind fun b => { b with filter := b.filter ++ [filter] }
  | none => return c

def processAdmin (env : Env) (line : List Char) (c : AppConfig) : Except Fault AppConfig := do
  match ← entryOf "admin:" (addressOf env ⟨127, 0, 0, 1⟩) line with
  | some address =>
      return { c with
        httpAdminIp := address.srcIp
        httpAdminPort := address.srcPort
        httpAdminEnabled := true }
  | none => return c

def processTask (env : Env) (clock : Clock) (line : List Char) (c : AppConfig) :
    Except Fault AppConfig := do
  match ← entryOf "task:" (taskOf env clock) line with
  | some task => return c.onLastBind fun b => { b with tasks := b.tasks ++ [task] }
  | none => return c

def processConnectionsPerThread (line : List Char) (c : AppConfig) : Except Fault AppConfig := do
  match ← entryOf "conperthread:" (fun line h => some <$> numberOf line h) line with
  | some connections =>
      return { c with connectionsPerThread := if connections = 0 then 16 else connections }
  | none => return c

def processConfigLine (env : Env) (c : AppConfig) (line : ConfigLine) :
    Except Fault AppConfig := do
  let s := line.text
  let first ← charAt s 0
  if first = some '/' ∨ first = some ';' ∨ first = some '#' then return c
  else
    let c ← processBind env s c
    let c ← processAlsobind env s c
    let c ← processServer env s c
    let c ← processRetry s c
    let c ← processFilter env s c
    let c ← processAdmin env s c
    let c ← processTask env line.clock s c
    processConnectionsPerThread s c

end ConfigText

end Relb
