import Relb.Model.Socket
/-!
# `ControlSocket`: the pipe that wakes a manager up

The POSIX branches. Each `post` writes the one byte of `buffer`, which nobody reads, so that the
pipe is the number of bytes in it. Both ends block: `write` while the pipe is full, and `read`
while it is empty. A call that blocks returns `none`.
-/

namespace Relb

/-- `fd0` is the end that is read from, and `-1` when `pipe` has failed, as the other end is
then. The kernel keeps up to `capacity` bytes. -/
structure ControlSocket where
  fd0 : Int
  bytes : Nat
  capacity : Nat
  deriving DecidableEq, Repr

namespace ControlSocket

/-- The constructor, with what `pipe` has put in `fd[0]`. -/
def create (fd0 : Int) (capacity : Nat) : ControlSocket := ⟨fd0, 0, capacity⟩

/-- `write( fd[1], buffer, 1 )`. What it returns is only traced. -/
def post (c : ControlSocket) : Option ControlSocket :=
  if c.fd0 = -1 then some c
  else if c.bytes < c.capacity then some { c with bytes := c.bytes + 1 }
  else none

/-- Only `-1` is kept from `FD_SET`, and not a descriptor that is too large. -/
def addToFDSET (c : ControlSocket) (set : FdSet) (maxFd : Int) : FdSet × Int :=
  if c.fd0 > 0 then
    (fun fd => fd == c.fd0 || set fd, if c.fd0 > maxFd then c.fd0 else maxFd)
  else (set, maxFd)

/-- `read( fd[0], buffer, 1 )`, if the descriptor is marked. -/
def checkSocket (c : ControlSocket) (set : FdSet) : Option (Int × ControlSocket) :=
  if set c.fd0 then
    if c.fd0 = -1 then some (-1, c)
    else if 0 < c.bytes then some (1, { c with bytes := c.bytes - 1 })
    else none
  else some (0, c)

end ControlSocket

end Relb
