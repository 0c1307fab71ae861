import Relb.Model.AdminHTTPServer
import Relb.Model.ConfigText
/-!
# `AdminHTTPServer`: the pages

The web admin reads a request line by line into a buffer that it uses again for every line. A line
is kept as the bytes of `buff` up to its length, where the code writes a NUL; it may have NULs of
its own, and what is behind its length belongs to an earlier line and is a fault to read. A pointer
into the line is an index. Of the pages only what the code computes is kept: the links, the selected
connections, the numbers of the servers and the messages that are posted. The texts of the pages and
the formatting of times are left out.
-/

namespace Relb

open ConfigText (charAt)
open ConfigText renaming startsWith → startsWithAt, atoi → atoiAt

/-! ## Parameters and pages -/

abbrev textSortBySrcIp := "src"
abbrev textSortByDstIp := "dst"
abbrev textSortByStatus := "stts"
abbrev textSortByModified := "mod"
abbrev textSortByCreation := "creat"

abbrev textStatusParam := "status="
abbrev textSortByParam := "sort_by="
abbrev textSortAscParam := "sort_asc=false"
abbrev textSrcIpParam := "src_ip="
abbrev textSrcPortParam := "src_port="
abbrev textDstIpParam := "dst_ip="
abbrev textDstPortParam := "dst_port="

abbrev webPageList := "list"
abbrev webPageServers := "servers"
abbrev webPageBan := "ban"
abbrev webPageBanAll := "ban_all"
abbrev webPageKick := "kick"

abbrev sortBySrcIp : Int := 1
abbrev sortByDstIp : Int := 2
abbrev sortByStatus : Int := 3
abbrev sortByModified : Int := 4
abbrev sortByCreation : Int := 5

/-- What `list` is called with. -/
structure ListRequest where
  srcFilter : IpAddress
  dstFilter : IpAddress
  srcPort : UInt16
  dstPort : UInt16
  statusFilter : Int
  sortBy : Int
  ascending : Bool
  deriving DecidableEq, Repr

/-! ## The connection table -/

def IpAddress.data (ip : IpAddress) : List UInt8 := [ip.data0, ip.data1, ip.data2, ip.data3]

/-- The loop of `ip_less_than`, which the first octet that differs ends. -/
def lessFrom : List UInt8 → List UInt8 → Bool
  | a :: lt, b :: gt => if a > b then false else if a < b then true else lessFrom lt gt
  | _, _ => false

def ipLessThan (iplt ipgt : IpAddress) : Bool := lessFrom iplt.data ipgt.data

/-- The fields of a connection that the table copies. -/
structure PeerRow where
  srcIp : IpAddress
  srcPort : UInt16
  dstIp : IpAddress
  dstPort : UInt16
  status : UInt8
  created : Datetime
  modified : Datetime
  parallel : Option Ptr
  deriving DecidableEq, Repr

def PeerInfo.row (q : PeerInfo) : PeerRow where
  srcIp := q.srcIp
  srcPort := q.srcPort
  dstIp := q.dstIp
  dstPort := q.dstPort
  status := q.status
  created := q.created
  modified := q.modified
  parallel := q.parallel

/-- `filterok`. -/
def ListRequest.filterOk (r : ListRequest) (q : PeerInfo) : Bool :=
  !(r.srcFilter ≠ ipnone && q.srcIp ≠ r.srcFilter) &&
    !(r.srcPort ≠ 0 && q.srcPort ≠ r.srcPort) &&
    !(r.dstFilter ≠ ipnone && q.dstIp ≠ r.dstFilter) &&
    !(r.dstPort ≠ 0 && q.dstPort ≠ r.dstPort) &&
    !(r.statusFilter ≠ 0 && !statusHas q.status (UInt32.ofInt r.statusFilter))

/-- `inserthere`: the new row goes in front of the other one. A key that is none of the five never
says so. -/
def ListRequest.insertHere (r : ListRequest) (row other : PeerRow) : Bool :=
  if r.ascending then
    if r.sortBy = sortBySrcIp then
      if ipLessThan row.srcIp other.srcIp then true
      else row.srcIp == other.srcIp && decide (row.srcPort < other.srcPort)
    else if r.sortBy = sortByDstIp then
      if ipLessThan row.dstIp other.dstIp then true
      else row.dstIp == other.dstIp && decide (row.dstPort < other.dstPort)
    else if r.sortBy = sortByStatus then decide (row.status < other.status)
    else if r.sortBy = sortByModified then decide (row.modified ≥ other.modified)
    else if r.sortBy = sortByCreation then decide (row.created < other.created)
    else false
  else
    if r.sortBy = sortBySrcIp then
      if !ipLessThan row.srcIp other.srcIp && !(row.srcIp == other.srcIp) then true
      else row.srcIp == other.srcIp && decide (row.srcPort ≥ other.srcPort)
    else if r.sortBy = sortByDstIp then
      if !ipLessThan row.dstIp other.dstIp && !(row.dstIp == other.dstIp) then true
      else row.dstIp == other.dstIp && decide (row.dstPort ≥ other.dstPort)
    else if r.sortBy = sortByStatus then decide (row.status ≥ other.status)
    else if r.sortBy = sortByModified then decide (row.modified < other.modified)
    else if r.sortBy = sortByCreation then decide (row.created ≥ other.created)
    else false

/-- The loop over the rows from `j` on: `j` and `inserthere` behind it. -/
def searchFrom (here : PeerRow → Bool) : List PeerRow → Nat → Nat × Bool
  | [], j => (j, false)
  | other :: rest, j => if here other then (j + 1, true) else searchFrom here rest (j + 1)

/-- One row is added to the sorted list. -/
def ListRequest.insertRow (r : ListRequest) (pList : List PeerRow) (row : PeerRow) :
    List PeerRow :=
  let (j, inserthere) := searchFrom (r.insertHere row) pList 0
  if inserthere then pList.insertIdx (j - 1) row else pList ++ [row]

/-- `list` from the filters to the table; without a key it is the whole list as it is. -/
def ListRequest.rows (r : ListRequest) (peerList : List PeerInfo) : List PeerRow :=
  if r.sortBy ≠ 0 then
    peerList.foldl (fun pList q => if r.filterOk q then r.insertRow pList q.row else pList) []
  else peerList.map PeerInfo.row

/-- The table of the connections that the admin knows. -/
def AdminHTTPServer.list (a : AdminHTTPServer) (heap : Ptr → Option PeerInfo) (r : ListRequest) :
    List PeerRow := r.rows (a.peerList.filterMap heap)

/-! ## Links -/

/-- How ptypes writes addresses and numbers. -/
structure Texts where
  iptostring : IpAddress → List Char
  itostring : Nat → List Char
  /-- `string( status_filter )`. -/
  string : Int → List Char

variable (texts : Texts)

/-- `filters`, in front of the keys of the links of `list`. -/
def ListRequest.filters (r : ListRequest) : List Char :=
  (if r.srcFilter ≠ ipnone then textSrcIpParam.toList ++ texts.iptostring r.srcFilter ++ ['&']
    else []) ++
  (if r.srcPort ≠ 0 then textDstPortParam.toList ++ texts.itostring r.srcPort.toNat ++ ['&']
    else []) ++
  (if r.dstFilter ≠ ipnone then textDstIpParam.toList ++ texts.iptostring r.dstFilter ++ ['&']
    else []) ++
  (if r.dstPort ≠ 0 then textDstPortParam.toList ++ texts.itostring r.dstPort.toNat ++ ['&']
    else []) ++
  (if r.statusFilter > 0 then textStatusParam.toList ++ texts.string r.statusFilter ++ ['&']
    else [])

/-- The columns with links, and the texts of their keys. -/
inductive SortColumn
  | source
  | destination
  | status
  | duration
  | registeredAt
  deriving DecidableEq, Repr

def SortColumn.text : SortColumn → String
  | source => textSortBySrcIp
  | destination => textSortByDstIp
  | status => textSortByStatus
  | duration => textSortByModified
  | registeredAt => textSortByCreation

/-- The links `a` and `d` of a column. -/
def ListRequest.sortLink (r : ListRequest) (column : SortColumn) (ascending : Bool) : List Char :=
  webPageList.toList ++ ['?'] ++ r.filters texts ++ textSortByParam.toList ++ column.text.toList ++
    if ascending then [] else ['&'] ++ textSortAscParam.toList

/-- What the links of a row have behind the page. -/
def PeerRow.actionParams (row : PeerRow) : List Char :=
  textSrcIpParam.toList ++ texts.iptostring row.srcIp ++ ['&'] ++ textSrcPortParam.toList ++
    texts.itostring row.srcPort.toNat

def PeerRow.kickLink (row : PeerRow) : List Char :=
  webPageKick.toList ++ ['?'] ++ row.actionParams texts

def PeerRow.banLink (row : PeerRow) : List Char :=
  webPageBan.toList ++ ['?'] ++ row.actionParams texts

def PeerRow.banAllLink (row : PeerRow) : List Char :=
  webPageBanAll.toList ++ ['?'] ++ row.actionParams texts

/-! ## The servers -/

/-- What `servers` shows of a server. -/
structure ServerRow where
  link : List Char
  name : List Char
  connected : Int
  disconnected : Int
  deriving DecidableEq, Repr

def ServerInfo.row (srv : ServerInfo) : ServerRow where
  link := webPageList.toList ++ ['?'] ++ textDstIpParam.toList ++ texts.iptostring srv.ip ++
    ['&'] ++ textDstPortParam.toList ++ texts.itostring srv.port.toNat
  name := texts.iptostring srv.ip ++ [':'] ++ texts.itostring srv.port.toNat
  connected := srv.connected
  disconnected := srv.disconnected

/-- The page `servers`. -/
def AdminHTTPServer.servers (a : AdminHTTPServer) : List ServerRow :=
  a.serverList.map fun srv => srv.row texts

/-! ## Requests -/

/-- A `char` is zero, in the line or at its end. -/
def isNul (c : Option Char) : Bool := c == none || c == some '\x00'

/-- The spaces and separators from index 5 on become zero. -/
def cutLine (line : List Char) : List Char :=
  line.take 5 ++ (line.drop 5).map fun c => if c = ' ' ∨ c = '&' ∨ c = '?' then '\x00' else c

/-- `strcmp( buff + h, word ) == 0`. -/
def equalsAt (line : List Char) (h : Nat) (word : String) : Except Fault Bool := do
  if ← startsWithAt line h word then
    let c ← charAt line (h + word.toList.length)
    return isNul c
  else return false

/-- The loop of `char_to_ipaddress`, with `i[0]` to `i[t - 1]` in `octets`. -/
def octetsFrom (line : List Char) : Nat → Nat → List Int → Except Fault (List Int)
  | 0, _, octets => .ok octets
  | fuel + 1, m, octets => do
      let c ← charAt line m
      if isNul c ∨ 4 ≤ octets.length then return octets
      else if c = some '.' then
        let octet ← atoiAt line (m + 1)
        octetsFrom line fuel (m + 1) (octets ++ [octet])
      else octetsFrom line fuel (m + 1) octets

/-- `char_to_ipaddress( &line[h] )`. Octets that are missing are zero. -/
def charToIpaddress (line : List Char) (h : Nat) : Except Fault IpAddress := do
  let first ← atoiAt line h
  let octets ← octetsFrom line (line.length + 1) h [first]
  let i := fun t => UInt8.ofInt (octets.getD t 0)
  return ⟨i 0, i 1, i 2, i 3⟩

/-- The loop over the line from index 5 on: `f` is done behind every zero. -/
def eachParam {σ : Type} (line : List Char) (f : Nat → σ → Except Fault σ) (s : σ) :
    Except Fault σ :=
  (List.range' 5 (line.length - 5)).foldlM (fun s i => do
    let c ← charAt line i
    if isNul c then f (i + 1) s else return s) s

/-- `f` is done with the value of the parameter `name`, if it stands at `h`. -/
def onParam {σ : Type} (line : List Char) (h : Nat) (name : String) (f : Nat → Except Fault σ)
    (s : σ) : Except Fault σ := do
  if ← startsWithAt line h name then f (h + name.toList.length) else return s

/-- The text at `key` stands for a column. -/
def onKey (line : List Char) (key : Nat) (text : String) (sortBy : Int) (r : ListRequest) :
    Except Fault ListRequest := do
  if ← equalsAt line key text then return { r with sortBy := sortBy } else return r

/-- The value of `sort_by`, the text of a column or a number. -/
def sortByParam (line : List Char) (r : ListRequest) (key : Nat) : Except Fault ListRequest := do
  let r ← onKey line key textSortBySrcIp sortBySrcIp r
  let r ← onKey line key textSortByDstIp sortByDstIp r
  let r ← onKey line key textSortByStatus sortByStatus r
  let r ← onKey line key textSortByModified sortByModified r
  let r ← onKey line key textSortByCreation sortByCreation r
  let number ← atoiAt line key
  return if number > 0 then { r with sortBy := number } else r

/-- What stands at `h` in a line for `list`: each test is made, one after the other. -/
def listParam (line : List Char) (h : Nat) (r : ListRequest) : Except Fault ListRequest := do
  let r ← onParam line h textSrcIpParam (fun v => do
    return { r with srcFilter := ← charToIpaddress line v }) r
  let r ← onParam line h textSrcPortParam (fun v => do
    return { r with srcPort := UInt16.ofInt (← atoiAt line v) }) r
  let r ← onParam line h textDstIpParam (fun v => do
    return { r with dstFilter := ← charToIpaddress line v }) r
  let r ← onParam line h textDstPortParam (fun v => do
    return { r with dstPort := UInt16.ofInt (← atoiAt line v) }) r
  let r ← onParam line h textStatusParam (fun v => do
    return { r with statusFilter := ← atoiAt line v }) r
  let r ← onParam line h textSortByParam (sortByParam line r) r
  onParam line h textSortAscParam (fun _ => return { r with ascending := false }) r

/-- The pointers that `ban`, `kick` and `ban_all` are called with; `none` is `NULL`. -/
structure PeerParams where
  srcIp : Option Nat
  srcPort : Option Nat
  deriving DecidableEq, Repr

/-- What stands at `h` in a line for `ban`, `kick` or `ban_all`. -/
def peerParam (line : List Char) (h : Nat) (q : PeerParams) : Except Fault PeerParams := do
  let q ← onParam line h textSrcIpParam (fun v => return { q with srcIp := some v }) q
  onParam line h textSrcPortParam (fun v => return { q with srcPort := some v }) q

/-- What a line makes the admin do. -/
inductive PageCall
  | list (r : ListRequest)
  | ban (q : PeerParams)
  | kick (q : PeerParams)
  | banAll (q : PeerParams)
  | servers
  | redirect
  deriving DecidableEq, Repr

/-- The call of a page, if the word behind `GET /` is its name. -/
def pageCall {α : Type} (line : List Char) (page : String) (params : Except Fault α)
    (call : α → PageCall) : Except Fault (List PageCall) := do
  if ← equalsAt line 5 page then return [call (← params)] else return []

/-- The calls of a line that has been cut, in their order, without a redirection. -/
def pageCalls (line : List Char) : Except Fault (List PageCall) := do
  let peerParams := eachParam line (peerParam line) ⟨none, none⟩
  let listCall ← pageCall line webPageList
    (eachParam line (listParam line) ⟨ipnone, ipnone, 0, 0, 0, 1, true⟩) .list
  let banCall ← pageCall line webPageBan peerParams .ban
  let kickCall ← pageCall line webPageKick peerParams .kick
  let banAllCall ← pageCall line webPageBanAll peerParams .banAll
  let serversCall ← pageCall line webPageServers (.ok ()) fun _ => .servers
  return listCall ++ banCall ++ kickCall ++ banAllCall ++ serversCall

/-- One line of a request, with `default_redirection`. -/
def getLine (line : List Char) (redirection : Bool) : Except Fault (List PageCall × Bool) := do
  if ← startsWithAt line 0 "GET " then
    let calls ← pageCalls (cutLine line)
    let redirection := redirection && calls.isEmpty
    return (if redirection then calls ++ [.redirect] else calls, redirection)
  else return ([], redirection)

/-- The lines of a request, up to the empty one. -/
def requestCalls (lines : List (List Char)) : Except Fault (List PageCall) := do
  let answered ← lines.foldlM (fun answered line => do
    let more ← getLine line answered.2
    return (answered.1 ++ more.1, more.2)) ([], true)
  return answered.1

/-! ## Actions -/

/-- The address and the port that `ban`, `kick` and `ban_all` look for. -/
def peerAt (line : List Char) (srcIp srcPort : Nat) : Except Fault (IpAddress × UInt16) := do
  let ip ← charToIpaddress line srcIp
  let port ← atoiAt line srcPort
  return (ip, UInt16.ofInt port)

/-- The same with the pointers that they get; `none` if one of them is `NULL`. -/
def PeerParams.peer (q : PeerParams) (line : List Char) :
    Option (Except Fault (IpAddress × UInt16)) :=
  match q.srcIp, q.srcPort with
  | some srcIp, some srcPort => some (peerAt line srcIp srcPort)
  | _, _ => none

end Relb
