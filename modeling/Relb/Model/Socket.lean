import Relb.Model.Utiles
/-!
# Sockets and descriptor sets

A `Socket` as its users see it. Results of the non-blocking calls come from the
outside: `ReceiveResult max` and `SendResult max` are what one `receiveNB` or
`sendNB` call with length `max` can return. A positive result never exceeds the
length requested, and a positive receive result comes with exactly that many bytes.
-/

namespace Relb

structure Socket where
  sock : Int
  ip : IpAddress
  port : UInt16
  deriving DecidableEq, Repr

/-- `FD_SETSIZE` on POSIX. -/
def fdSetSize : Int := 1024

/-- The descriptors that `FD_SET` is defined for. -/
def InRange (fd : Int) : Prop := 0 ≤ fd ∧ fd < fdSetSize

instance (fd : Int) : Decidable (InRange fd) := inferInstanceAs (Decidable (_ ∧ _))

/-- An `fd_set`, as the descriptors that `FD_SET` has been called with. A call outside `InRange` is
undefined. It is kept here all the same, so that it can be seen that it was made; who relies on a
set asks for `InRange`. -/
abbrev FdSet := Int → Bool

def Socket.isInFDSET (s : Socket) (set : FdSet) : Bool :=
  if s.sock > 0 then set s.sock else false

/-- `FD_SET` is defined for the descriptor, and `isInFDSET` reports it. -/
def Socket.Selectable (s : Socket) : Prop := 0 < s.sock ∧ s.sock < fdSetSize

instance (s : Socket) : Decidable s.Selectable := inferInstanceAs (Decidable (_ ∧ _))

/-- `FD_SET` without a test of the descriptor, and `max_fd` is raised to it:
`ENABLE_SELECT_NFDS_CALC` is set. -/
def Socket.addToFDSET (s : Socket) (set : FdSet) (maxFd : Int) : FdSet × Int :=
  (fun fd => fd == s.sock || set fd, if s.sock > maxFd then s.sock else maxFd)

/-- The two ends of a relayed connection. -/
inductive Endpoint
  | client
  | server
  deriving DecidableEq, Repr

/-- The endpoint that feeds `e`. -/
def Endpoint.other : Endpoint → Endpoint
  | .client => .server
  | .server => .client

/-- Result of `receiveNB( buffer, max )`: the returned `int` and the bytes put in the buffer. -/
structure ReceiveResult (max : Nat) where
  ret : Int
  bytes : List UInt8
  ret_le : ret ≤ max
  length_bytes : 0 < ret → (bytes.length : Int) = ret

/-- Result of `sendNB( buffer, max )`: the first `ret` bytes were accepted when `ret` is
positive. -/
structure SendResult (max : Nat) where
  ret : Int
  ret_le : ret ≤ max

/-- What the sockets of a peer answer during one public operation. An operation calls each
method at most once on each endpoint. -/
structure SocketIO where
  receiveNB : Endpoint → (max : Nat) → ReceiveResult max
  sendNB : Endpoint → (max : Nat) → SendResult max
  checkSocket : Endpoint → Int

/-- At most `bs` is available on the socket. -/
def ReceiveResult.available (bs : List UInt8) (max : Nat) : ReceiveResult max where
  ret := (bs.take max).length
  bytes := bs.take max
  ret_le := by
    rw [List.length_take]
    exact_mod_cast Nat.min_le_left _ _
  length_bytes := fun _ => rfl

/-- The socket returns `n` without transferring anything: `0` when the call would block, `-2`
when the peer has closed, another negative number on an error. -/
def ReceiveResult.code (n : Int) (hn : n ≤ 0) (max : Nat) : ReceiveResult max where
  ret := n
  bytes := []
  ret_le := by omega
  length_bytes := fun h => by omega

/-- The socket accepts at most `n` bytes. -/
def SendResult.upTo (n max : Nat) : SendResult max where
  ret := min n max
  ret_le := by omega

def SendResult.code (n : Int) (hn : n ≤ 0) (max : Nat) : SendResult max where
  ret := n
  ret_le := by omega

/-- No socket is ready: every call would block and no check fails. -/
def SocketIO.idle : SocketIO where
  receiveNB _ := ReceiveResult.code 0 (by decide)
  sendNB _ := SendResult.code 0 (by decide)
  checkSocket _ := 0

end Relb
