import Mathlib.Algebra.Group.Nat.Defs
import Mathlib.Tactic.Common
/-!
# Addresses, messages and status ids

The shared vocabulary of `utiles.h`: IPv4 addresses, the records of a configured
server and of a filter, `float`, and the status ids. A status id is an `int` whose bits are
tested one by one, so it is kept as a 32-bit word; `peer_info::status` keeps its
low byte.
-/

namespace Relb

/-- Address of a heap object. Where `NULL` is possible the type is `Option Ptr`. -/
abbrev Ptr := Nat

/-- `datetime`: milliseconds. -/
abbrev Datetime := Int

/-- Conversion to a 32-bit `int`. -/
def toInt (n : Int) : Int := n.bmod (2 ^ 32)

/-- ptypes' `ipaddress`: four octets. -/
structure IpAddress where
  data0 : UInt8
  data1 : UInt8
  data2 : UInt8
  data3 : UInt8
  deriving DecidableEq, Repr

/-- Octet-wise conjunction of an address with a mask. -/
def maskedIp (ip mask : IpAddress) : IpAddress :=
  ⟨ip.data0 &&& mask.data0, ip.data1 &&& mask.data1, ip.data2 &&& mask.data2,
    ip.data3 &&& mask.data3⟩

structure FilterInfo where
  srcIp : IpAddress
  srcMask : IpAddress
  dstIp : IpAddress
  dstMask : IpAddress
  allow : Bool
  deriving DecidableEq, Repr

/-- `serverinfo`. The port is declared `int` but only `addServer` writes it, from an
`unsigned short`. -/
structure ServerInfo where
  ip : IpAddress
  port : UInt16
  disconnected : Int
  finished : Int
  connected : Int
  connecting : Int
  weight : Int
  maxConnections : Int
  lastConnectionFailed : Bool
  lastConnectionAttempt : Datetime
  deriving DecidableEq, Repr

/-! ## `float` -/

/-- The rational nearest to `m / d` among those with a 24-bit significand, ties to even. The
sums that the program rounds are far below the largest `float`. -/
def roundToFloat (m d : Nat) : Rat :=
  let e₀ : Int := (Nat.log2 m : Int) - Nat.log2 d
  let e : Int := if d * 2 ^ e₀.toNat ≤ m * 2 ^ (-e₀).toNat then e₀ else e₀ - 1
  let k : Int := max (e - 23) (-149)
  let num := m * 2 ^ (-k).toNat
  let den := d * 2 ^ k.toNat
  let t := num / den
  let r := num % den
  let t := if 2 * r < den then t else if den < 2 * r then t + 1 else if t % 2 = 0 then t else t + 1
  mkRat (t * 2 ^ k.toNat : Nat) (2 ^ (-k).toNat)

def toFloat (q : Rat) : Rat :=
  if q = 0 then 0
  else if q < 0 then -roundToFloat q.num.natAbs q.den
  else roundToFloat q.num.natAbs q.den

example : toFloat 16777217 = 16777216 := by decide +kernel

/-! ## Status ids -/

abbrev statusServer : UInt32 := 0
abbrev statusClient : UInt32 := (1 : UInt32) <<< 0
abbrev statusClientServerMask : UInt32 := ~~~(statusServer ||| statusClient)
abbrev statusConnecting : UInt32 := (1 : UInt32) <<< 1
abbrev statusConnectingServer : UInt32 := statusConnecting ||| statusServer
abbrev statusConnectionEstablished : UInt32 := (1 : UInt32) <<< 2
abbrev statusDisconnectedOk : UInt32 := (1 : UInt32) <<< 3
abbrev statusServerDisconnectedOk : UInt32 := statusDisconnectedOk ||| statusServer
abbrev statusClientDisconnectedOk : UInt32 := statusDisconnectedOk ||| statusClient
abbrev statusConnectionLost : UInt32 := (1 : UInt32) <<< 4
abbrev statusServerConnectionLost : UInt32 := statusConnectionLost ||| statusServer
abbrev statusClientConnectionLost : UInt32 := statusConnectionLost ||| statusClient
abbrev statusConnectionFailed : UInt32 := (1 : UInt32) <<< 5
abbrev statusPeerConnectionTerminated : UInt32 := (1 : UInt32) <<< 6
abbrev statusPeerConnectionCancelled : UInt32 := statusPeerConnectionTerminated ||| statusClient
abbrev statusPeerConnectionKicked : UInt32 := statusPeerConnectionTerminated ||| statusServer
abbrev statusPeerConnectionBanned : UInt32 := (1 : UInt32) <<< 7
abbrev statusPeerConnectionDeleted : UInt32 := statusPeerConnectionBanned
abbrev statusPeerConnectionBanThis : UInt32 := statusPeerConnectionBanned ||| statusServer
abbrev statusPeerConnectionBanAll : UInt32 := statusPeerConnectionBanned ||| statusClient
abbrev statusPeerDisconnected : UInt32 := statusConnectionFailed ||| statusConnectionLost
abbrev statusPeerNotConnected : UInt32 := statusPeerDisconnected ||| statusDisconnectedOk

/-- A message of a `MessageQueue`. -/
structure Message where
  id : UInt32
  param : Ptr
  deriving DecidableEq, Repr

/-- `status & mask`, for the `unsigned char` of a `peer_info`. -/
def statusHas (status : UInt8) (mask : UInt32) : Bool := status.toUInt32 &&& mask ≠ 0

/-- The ids of the messages that the program posts to the queue of `ServerList`: those of
`ConnectionPeer`, and the requests of the web admin. -/
def postedIds : List UInt32 :=
  [statusConnectionEstablished, statusConnectionFailed,
    statusServerDisconnectedOk, statusClientDisconnectedOk,
    statusServerConnectionLost, statusClientConnectionLost,
    statusPeerConnectionCancelled, statusPeerConnectionKicked,
    statusPeerConnectionBanThis, statusPeerConnectionBanAll]

end Relb
