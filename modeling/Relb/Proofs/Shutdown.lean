import Relb.Proofs.ManagerPeers
import Relb.Proofs.WakeUps
/-!
# How a manager stops

The destructor sets `finish`, leaves a byte in the pipe, waits for the thread and cleans up after
it. Wherever the thread stands, it waits for that byte at most: each of its steps brings it closer
to the end, whatever `select` and the sockets answer. Only a null access can stop it on the way.
-/

namespace Relb

open Lib

namespace ManagerThread

variable {m t : ManagerThread} {op : Op} {io : SocketIO} {fd0 : Int} {capacity : Nat}

/-! ## Where the thread cannot go on -/

theorem advancePurge_isSome {point : ClosePoint} (hpoint : m.point = .purge point)
    (hplace : m.InPlace) : (m.advancePurge point).isSome := by
  rw [InPlace, hpoint] at hplace
  cases point with
  | count => rfl
  | top place =>
      have htop : m.toBeClosed.getLast? = some (m.toBeClosed.getLast hplace) :=
        List.getLast?_eq_some_getLast hplace
      rw [advancePurge, htop]
      split <;> rfl
  | offer place height top =>
      rw [advancePurge, List.getElem?_eq_getElem hplace.2]
      rfl
  | pop =>
      rw [advancePurge, if_neg hplace]
      rfl
  | ended => rfl

theorem checkSocket_eq_none_iff {c : ControlSocket} {set : FdSet} (hfd : 0 < c.fd0) :
    c.checkSocket set = none ↔ set c.fd0 = true ∧ c.bytes = 0 := by
  unfold ControlSocket.checkSocket
  rw [if_neg (by omega : c.fd0 ≠ -1)]
  split_ifs with hmarked hbytes
  · exact iff_of_false (by simp) (by omega)
  · exact iff_of_true rfl ⟨hmarked, by omega⟩
  · exact iff_of_false (by simp) (by simp [hmarked])

theorem advance_manage {i : Nat} {p : PeerObject} (hpoint : m.point = .manage i)
    (hp : m.peerList[i]? = some p) :
    m.advance io = none ↔ p.peer.ServerBlocked m.sets.setr io := by
  rw [← ConnectionPeer.manageConnections_error_iff m.sets.setw]
  simp only [advance, hpoint, hp]
  cases hq : p.peer.manageConnections m.sets.setr m.sets.setw io with
  | ok q => simp
  | error q => simp

theorem advance_promote {i : Nat} (hpoint : m.point = .promote i)
    (hi : i < m.connectingPeerList.length) : (m.advance io).isSome := by
  obtain ⟨⟨changed, q⟩, hq⟩ :=
    m.connectingPeerList[i].peer.manageConnectingPeer_ok m.sets.setr m.sets.setw io
  simp [advance, hpoint, List.getElem?_eq_getElem hi, hq]

/-- Where the thread cannot go on, when the sockets answer `io`. -/
inductive Stops (m : ManagerThread) (io : SocketIO) : Prop
  /-- A descriptor is bad, and there is no byte to be read. -/
  | waits : m.point = .badDescriptor → m.controlSocket.bytes = 0 → Stops m io
  | ended : m.point = .ended → Stops m io
  /-- A connected peer goes through a null pointer. -/
  | nullAccess (i : Nat) (p : PeerObject) : m.point = .manage i → m.peerList[i]? = some p →
      p.peer.ServerBlocked m.sets.setr io → Stops m io
  /-- `FD_SET` is called for a peer with a descriptor that it does not take. -/
  | peerOutOfRange (place : PeerPlace) (p : PeerObject) : m.point = .register place →
      (m.peers place.kind)[place.index]? = some p → m.finish = false → p.peer.isActive = true →
        ¬(FdSets.asked place.kind p.peer).Within InRange → Stops m io
  /-- Or for the control socket. -/
  | controlOutOfRange : m.point = .beforeSelect → m.finish = false →
      ¬m.controlSocket.fd0 < fdSetSize → Stops m io

theorem advance_register {place : PeerPlace} {p : PeerObject} (hpoint : m.point = .register place)
    (hp : (m.peers place.kind)[place.index]? = some p) :
    m.advance io = none ↔ m.finish = false ∧ p.peer.isActive = true ∧
      ¬(FdSets.asked place.kind p.peer).Within InRange := by
  rw [← FdSets.inRange_iff]
  simp only [advance, hpoint, hp]
  split
  · rename_i hkeep
    rw [Bool.and_eq_true, Bool.not_eq_true'] at hkeep
    split <;> simp [*]
  · rename_i hkeep
    refine iff_of_false (by simp) fun h => hkeep ?_
    rw [h.1, h.2.1]
    rfl

theorem stops_of_advance (h : Reachable fd0 capacity m) (hfd : 0 < fd0)
    (hselect : m.point ≠ .select) (hnone : m.advance io = none) : m.Stops io := by
  have hstanding := h.standing hfd
  have hplace := hstanding.inPlace
  have hcontrol := hstanding.control
  cases hpoint : m.point with
  | select => exact absurd hpoint hselect
  | purge point =>
      have hsome := advancePurge_isSome hpoint hplace
      have hnext : m.advance io = m.advancePurge point := by simp only [advance, hpoint]
      rw [hnext] at hnone
      rw [hnone] at hsome
      cases hsome
  | manage i =>
      rw [InPlace, hpoint] at hplace
      have hp := List.getElem?_eq_getElem hplace
      exact .nullAccess i _ hpoint hp ((advance_manage hpoint hp).mp hnone)
  | promote i =>
      rw [InPlace, hpoint] at hplace
      have hsome : (m.advance io).isSome := advance_promote hpoint hplace
      rw [hnone] at hsome
      cases hsome
  | checkSocket =>
      rw [Control, hpoint] at hcontrol
      simp only [advance, hpoint, Option.map_eq_none_iff] at hnone
      have hwaits := (checkSocket_eq_none_iff hstanding.fd0).mp hnone
      exact absurd (hcontrol hwaits.1) (by omega)
  | badDescriptor =>
      simp only [advance, hpoint, Option.map_eq_none_iff] at hnone
      exact .waits hpoint ((checkSocket_eq_none_iff hstanding.fd0).mp hnone).2
  | ended => exact .ended hpoint
  | beforeSelect =>
      simp only [advance, hpoint] at hnone
      split at hnone
      · cases hnone
      · rename_i hfinish
        split at hnone
        · cases hnone
        · exact .controlOutOfRange hpoint (by simpa using hfinish) ‹_›
  | register place =>
      rw [InPlace, hpoint] at hplace
      have hp := List.getElem?_eq_getElem hplace
      obtain ⟨hfinish, hactive, hrange⟩ := (advance_register hpoint hp).mp hnone
      exact .peerOutOfRange place _ hpoint hp hfinish hactive hrange
  | check place =>
      rw [InPlace, hpoint] at hplace
      simp [advance, hpoint, List.getElem?_eq_getElem hplace] at hnone
  | registerTest place | cleanup kind | cleanupRequests =>
      simp only [advance, hpoint] at hnone
      split at hnone <;> cases hnone
  | _ =>
      simp only [advance, hpoint] at hnone
      cases hnone

theorem Stops.advance (h : m.Stops io) (hstanding : m.Standing) : m.advance io = none := by
  have hcontrol := hstanding.control
  cases h with
  | waits hpoint hbytes =>
      rw [Control, hpoint] at hcontrol
      simp only [ManagerThread.advance, hpoint, Option.map_eq_none_iff]
      exact (checkSocket_eq_none_iff hstanding.fd0).mpr ⟨hcontrol.2.1, hbytes⟩
  | ended hpoint => simp only [ManagerThread.advance, hpoint]
  | nullAccess i p hpoint hp hblocked => exact (advance_manage hpoint hp).mpr hblocked
  | peerOutOfRange place p hpoint hp hfinish hactive hrange =>
      exact (advance_register hpoint hp).mpr ⟨hfinish, hactive, hrange⟩
  | controlOutOfRange hpoint hfinish hrange =>
      simp only [ManagerThread.advance, hpoint, hfinish, Bool.false_eq_true, if_false,
        if_neg hrange]

namespace Sample

def badDescriptor : List Op := List.replicate 6 (.advance .idle) ++ [.select .badDescriptor]

end Sample

section Rank

-- `p` and `c` peers are on the two lists, and `r` requests
variable (waited : Bool) (p c r : Nat)

/-- What the destructor has still to do when the thread has ended: `waitfor` returns, and it cleans
up. -/
def rankEnded : Nat := if waited then 0 else p + c + r + 4

/-- The steps from the head of the loop, for a thread that is told to finish. -/
def rankLoop : Nat := p + c + r + 4 + rankEnded waited p c r

/-- The steps of the registration, and what comes behind it. -/
def rankRegister : PeerPlace → Nat
  | ⟨.connected, i⟩ => 4 * (p - i) + 4 * c + 3 + rankLoop waited p c r
  | ⟨.connecting, i⟩ => 4 * (c - i) + 2 + rankLoop waited p c r

/-- The steps of a scan for one request. -/
def rankScan : PeerPlace → Nat
  | ⟨.connected, i⟩ => 2 * (p - i) + 2 * c + 3
  | ⟨.connecting, i⟩ => 2 * (c - i) + 2

/-- The steps for `n` requests, and what comes behind them. -/
def rankRequests (n : Nat) : Nat :=
  n * (2 * (p + c) + 4) + 2 + rankRegister waited p c r ⟨.connected, 0⟩

def rankPurge : ClosePoint → Nat
  | .count => rankRequests waited p c r r
  | .top place => rankScan p c place + rankRequests waited p c r (r - 1)
  | .offer place _ _ => rankScan p c place - 1 + rankRequests waited p c r (r - 1)
  | .pop => 1 + rankRequests waited p c r (r - 1)
  | .ended => 1 + rankRegister waited p c r ⟨.connected, 0⟩

def rankPromote (i : Nat) : Nat := 6 * (c - i) + 1 + rankLoop waited p c r

def rankManage (i : Nat) : Nat := 2 * (p - i) + 1 + rankPromote waited p c r 0

def rankCheck : PeerPlace → Nat
  | ⟨.connecting, i⟩ => 2 * (c - i) + 2 * p + 2 + rankLoop waited p c r
  | ⟨.connected, i⟩ => 2 * (p - i) + 1 + rankLoop waited p c r

def rankAt : ManagerPoint → Nat
  | .loop => rankLoop waited p c r
  | .purge point => rankPurge waited p c r point
  | .registerTest place => rankRegister waited p c r place
  | .register place => rankRegister waited p c r place - 1
  | .remove place _ => rankRegister waited p c r place - 2
  | .delete place _ => rankRegister waited p c r place + 1
  | .beforeSelect => 1 + rankLoop waited p c r
  | .select => 2 + rankManage waited p c r 0 + rankCheck waited p c r ⟨.connecting, 0⟩
  | .checkSocket => 1 + rankManage waited p c r 0
  | .manageTest i => rankManage waited p c r i
  | .manage i => rankManage waited p c r i - 1
  | .promoteTest i => rankPromote waited p c r i
  | .promote i => rankPromote waited p c r i - 1
  | .leave i _ => rankPromote waited p c r i - 2
  | .join i _ => rankPromote waited p c r i + 3
  | .badDescriptor => 1 + rankCheck waited p c r ⟨.connecting, 0⟩
  | .checkTest place => rankCheck waited p c r place
  | .check place => rankCheck waited p c r place - 1
  | .cleanup .connecting => c + p + r + 3 + rankEnded waited p c r
  | .cleanup .connected => p + r + 2 + rankEnded waited p c r
  | .cleanupRequests => r + 1 + rankEnded waited p c r
  | .ended => rankEnded waited p c r

end Rank

/-- The steps that are left at most, for a thread that is told to finish. -/
def rank (m : ManagerThread) : Nat :=
  rankAt m.waited m.peerList.length m.connectingPeerList.length m.toBeClosed.length m.point

theorem rankEnded_pred_le (waited : Bool) (p c r : Nat) :
    rankEnded waited (p - 1) c r ≤ rankEnded waited p c r ∧
      rankEnded waited p (c - 1) r ≤ rankEnded waited p c r ∧
        rankEnded waited p c (r - 1) ≤ rankEnded waited p c r := by
  cases waited with
  | true => exact ⟨Nat.le_refl _, Nat.le_refl _, Nat.le_refl _⟩
  | false =>
      simp only [rankEnded, Bool.false_eq_true, reduceIte]
      omega

theorem rankEnded_succ_le (waited : Bool) (p c r : Nat) :
    rankEnded waited (p + 1) c r ≤ rankEnded waited p c r + 1 := by
  cases waited with
  | true => exact Nat.zero_le _
  | false =>
      simp only [rankEnded, Bool.false_eq_true, reduceIte]
      omega

theorem rank_advanced (hplace : m.InPlace) (hfinish : m.finish = true) (h : m.Advanced t) :
    t.rank < m.rank := by
  obtain ⟨hpeers, hconnecting, hrequest⟩ := rankEnded_pred_le m.waited m.peerList.length
    m.connectingPeerList.length m.toBeClosed.length
  have hsucc := rankEnded_succ_le m.waited m.peerList.length m.connectingPeerList.length
    m.toBeClosed.length
  cases h with
  | finishes hpoint =>
      simp only [rank, goto, hpoint, rankAt, rankLoop]
      omega
  | begins hpoint hnot => rw [hfinish] at hnot; cases hnot
  | scans hpoint hrequests =>
      obtain ⟨n, hn⟩ := Nat.exists_eq_succ_of_ne_zero (mt List.eq_nil_of_length_eq_zero hrequests)
      simp only [rank, goto, hpoint, rankAt, rankPurge, rankScan, rankRequests, rankRegister,
        rankLoop, hn, Nat.succ_mul, Nat.succ_eq_add_one, Nat.add_sub_cancel]
      omega
  | purged hpoint hrequests =>
      simp only [rank, goto, hpoint, rankAt, rankPurge, rankRequests, rankRegister, rankLoop]
      omega
  | tops place top hpoint hlt htop =>
      obtain ⟨kind, i⟩ := place
      cases kind <;> simp only [peers] at hlt <;>
        simp only [rank, goto, hpoint, rankAt, rankPurge, rankScan] <;> omega
  | behind place hpoint hle =>
      obtain ⟨kind, i⟩ := place
      cases kind <;> simp only [peers] at hle <;>
        simp only [rank, goto, hpoint, CloseRequests.behind, rankAt, rankPurge, rankScan] <;> omega
  | offers place height top p hpoint hp =>
      have hlt := (List.getElem?_eq_some_iff.mp hp).1
      obtain ⟨kind, i⟩ := place
      cases kind <;> simp only [peers] at hlt <;>
        simp only [rank, goto, update, setPeers, peers, PeerPlace.next, List.length_set, hpoint,
          rankAt, rankPurge, rankScan] <;> omega
  | pops hpoint hrequests =>
      simp only [rank, hpoint, rankAt, rankPurge, rankRequests, rankRegister, rankLoop,
        List.length_dropLast]
      omega
  | registers hpoint =>
      simp only [rank, hpoint, rankAt, rankPurge]
      omega
  | registerNext place hpoint hlt =>
      obtain ⟨kind, i⟩ := place
      cases kind <;> simp only [peers] at hlt <;>
        simp only [rank, goto, hpoint, rankAt, rankRegister] <;> omega
  | registered place hpoint hle =>
      obtain ⟨kind, i⟩ := place
      cases kind <;> simp only [peers] at hle <;>
        simp only [rank, ManagerThread.registered, hpoint, rankAt, rankRegister] <;> omega
  | adds place p hpoint hp hnot => rw [hfinish] at hnot; cases hnot
  | drops place p hpoint hp hdrop =>
      have hlt := (List.getElem?_eq_some_iff.mp hp).1
      obtain ⟨kind, i⟩ := place
      cases kind <;> simp only [peers] at hlt <;>
        simp only [rank, goto, hpoint, rankAt, rankRegister] <;> omega
  | removes place p hpoint =>
      rw [InPlace, hpoint] at hplace
      have hlt := (List.getElem?_eq_some_iff.mp hplace).1
      obtain ⟨kind, i⟩ := place
      cases kind <;> simp only [peers] at hlt <;>
        simp only [rank, goto, setPeers, peers, hpoint, rankAt, rankRegister, rankLoop,
          List.length_eraseIdx_of_lt hlt] <;> omega
  | deletes place p hpoint =>
      simp only [rank, hpoint, rankAt]
      omega
  | skipsSelect hpoint =>
      simp only [rank, goto, hpoint, rankAt]
      omega
  | selects hpoint hnot => rw [hfinish] at hnot; cases hnot
  | checksSocket ret c hpoint hc =>
      simp only [rank, hpoint, rankAt]
      omega
  | manageNext i hpoint hlt =>
      simp only [rank, goto, hpoint, rankAt, rankManage]
      omega
  | managed i hpoint hle =>
      simp only [rank, goto, hpoint, rankAt, rankManage]
      omega
  | manages i p q io hpoint hp hq =>
      have hlt := (List.getElem?_eq_some_iff.mp hp).1
      simp only [rank, goto, update, setPeers, peers, List.length_set, hpoint, rankAt, rankManage]
      omega
  | promoteNext i hpoint hlt =>
      simp only [rank, goto, hpoint, rankAt, rankPromote]
      omega
  | promoted i hpoint hle =>
      simp only [rank, goto, hpoint, rankAt, rankPromote]
      omega
  | promotes i p changed q io hpoint hp hq =>
      have hlt := (List.getElem?_eq_some_iff.mp hp).1
      cases changed <;>
        simp only [rank, goto, update, setPeers, peers, List.length_set, hpoint, rankAt,
          rankPromote, Bool.false_eq_true, reduceIte] <;> omega
  | leaves i p hpoint =>
      rw [InPlace, hpoint] at hplace
      have hlt := (List.getElem?_eq_some_iff.mp hplace).1
      simp only [rank, goto, setPeers, hpoint, rankAt, rankPromote, rankLoop,
        List.length_eraseIdx_of_lt hlt]
      omega
  | joins i p hpoint =>
      simp only [rank, goto, setPeers, hpoint, rankAt, rankPromote, rankLoop, List.length_append,
        List.length_singleton]
      omega
  | checksBad ret c hpoint hc =>
      by_cases hret : 0 ≤ ret <;>
        simp only [rank, hpoint, rankAt, rankCheck, hret, if_true, if_false] <;> omega
  | checkNext place hpoint hlt =>
      obtain ⟨kind, i⟩ := place
      cases kind <;> simp only [peers] at hlt <;>
        simp only [rank, goto, hpoint, rankAt, rankCheck] <;> omega
  | checked place hpoint hle =>
      obtain ⟨kind, i⟩ := place
      cases kind <;> simp only [peers] at hle <;>
        simp only [rank, goto, behindCheck, hpoint, rankAt, rankCheck] <;> omega
  | checks place p io hpoint hp =>
      have hlt := (List.getElem?_eq_some_iff.mp hp).1
      obtain ⟨kind, i⟩ := place
      cases kind <;> simp only [peers] at hlt <;>
        simp only [rank, goto, update, setPeers, peers, PeerPlace.next, List.length_set, hpoint,
          rankAt, rankCheck] <;> omega
  | cleans kind p rest hpoint hlist =>
      cases kind <;> simp only [peers] at hlist <;>
        simp only [rank, setPeers, hpoint, hlist, rankAt, List.length_cons,
          Nat.add_sub_cancel] at hpeers hconnecting ⊢ <;> omega
  | cleaned kind hpoint hlist =>
      cases kind <;> simp only [peers] at hlist <;>
        simp only [rank, goto, behindCleanup, hpoint, hlist, rankAt, List.length_nil] <;> omega
  | forgets pinfo rest hpoint hrequests =>
      simp only [rank, hpoint, hrequests, rankAt, List.length_cons, Nat.add_sub_cancel]
        at hrequest ⊢
      omega
  | ends hpoint hrequests =>
      simp only [rank, goto, hpoint, hrequests, rankAt, List.length_nil]
      omega

/-! ## Runs of the manager's own thread -/

/-- Steps of the manager's own thread, and of the destructor that waits for it. -/
def Op.Own : Op → Prop
  | .advance _ | .select _ | .waitfor => True
  | _ => False

theorem frame_advanced (h : m.Advanced t) : t.finish = m.finish ∧ t.waited = m.waited ∧
    t.callers = m.callers ∧ t.created = m.created := by
  cases h with
  | behind place | offers place | registered place | removes place | checked place | checks place =>
      obtain ⟨kind, i⟩ := place
      cases kind <;> exact ⟨rfl, rfl, rfl, rfl⟩
  | cleans kind => cases kind <;> exact ⟨rfl, rfl, rfl, rfl⟩
  | _ => exact ⟨rfl, rfl, rfl, rfl⟩

theorem rank_stepped (hplace : m.InPlace) (hfinish : m.finish = true) (hown : op.Own)
    (h : m.Stepped op t) : t.rank < m.rank ∧ t.finish = true := by
  cases h with
  | advance io t h => exact ⟨rank_advanced hplace hfinish h, (frame_advanced h).1.trans hfinish⟩
  | select answer hpoint =>
      refine ⟨?_, by cases answer <;> exact hfinish⟩
      cases answer <;>
        simp only [rank, selected, goto, hpoint, rankAt, rankManage, rankPromote] <;> omega
  | waitfor hpoint _ hwaited =>
      refine ⟨?_, hfinish⟩
      simp only [rank, hpoint, hwaited, rankAt, rankEnded, Bool.false_eq_true, reduceIte]
      omega
  | _ => exact hown.elim

/-- What a cleaning up has emptied. -/
def EmptiedAt (connecting connected : List PeerObject) (requests : List (Option Ptr)) :
    ManagerPoint → Prop
  | .cleanup .connecting => True
  | .cleanup .connected => connecting = []
  | .cleanupRequests => connecting = [] ∧ connected = []
  | .ended => connecting = [] ∧ connected = [] ∧ requests = []
  | _ => False

/-- Once the destructor has come back from `waitfor` it only cleans up. -/
def Emptied (m : ManagerThread) : Prop :=
  m.waited = true → EmptiedAt m.connectingPeerList m.peerList m.toBeClosed m.point

theorem Emptied.advance (h : m.Emptied) (hstep : m.advance io = some t) : t.Emptied := by
  intro hwaited
  have hold := h ((frame_advanced (advanced_advance hstep)).2.1 ▸ hwaited)
  cases hpoint : m.point with
  | cleanup kind =>
      rw [hpoint] at hold
      simp only [ManagerThread.advance, hpoint] at hstep
      cases kind <;> split at hstep <;> obtain rfl := Option.some.inj hstep
      · change EmptiedAt m.connectingPeerList _ m.toBeClosed m.point
        rw [hpoint]
        exact hold
      · rename_i hlist
        exact ⟨hold, hlist⟩
      · change EmptiedAt _ m.peerList m.toBeClosed m.point
        rw [hpoint]
        trivial
      · rename_i hlist
        exact hlist
  | cleanupRequests =>
      rw [hpoint] at hold
      simp only [ManagerThread.advance, hpoint] at hstep
      split at hstep <;> obtain rfl := Option.some.inj hstep
      · exact hold
      · rename_i hrequests
        exact ⟨hold.1, hold.2, hrequests⟩
  | ended =>
      simp only [ManagerThread.advance, hpoint] at hstep
      cases hstep
  | _ =>
      rw [hpoint] at hold
      exact hold.elim

theorem Emptied.perform (h : m.Emptied) (hown : op.Own) (hstep : m.perform op = some t) :
    t.Emptied := by
  cases op with
  | advance io => exact h.advance hstep
  | select answer =>
      cases stepped_perform hstep with
      | select _ hpoint =>
          intro hwaited
          have hold := h (by cases answer <;> exact hwaited)
          rw [hpoint] at hold
          exact hold.elim
  | waitfor =>
      cases stepped_perform hstep with
      | waitfor hpoint hfinish hwaited => exact fun _ => trivial
  | _ => exact hown.elim

theorem length_add_rank_le {ops : List Op} (hown : ∀ op ∈ ops, op.Own) (hplace : m.Standing)
    (hfinish : m.finish = true) (hrun : ops.foldlM perform m = some t) :
    ops.length + t.rank ≤ m.rank := by
  induction ops generalizing m with
  | nil =>
      obtain rfl := Option.some.inj hrun
      simp
  | cons op ops ih =>
      obtain ⟨u, hu, hrest⟩ := foldlM_cons_eq_some.mp hrun
      have hstepped := stepped_perform hu
      obtain ⟨hlt, hfinish'⟩ := rank_stepped hplace.inPlace hfinish (hown op List.mem_cons_self)
        hstepped
      have hle := ih (fun op hop => hown op (List.mem_cons_of_mem _ hop))
        (hplace.stepped hstepped) hfinish' hrest
      rw [List.length_cons]
      omega

theorem Blocked.posts (hblocked : m.Blocked) (h : Reachable fd0 capacity m) (hfd : 0 < fd0)
    (hfinish : m.finish = true) : 0 < m.callers.countP Caller.posts := by
  have hannounced := hblocked.announced h hfd
  rw [hfinish, if_pos rfl] at hannounced
  omega

/-- It goes on otherwise, but for a null access. -/
theorem exists_own_step (h : Reachable fd0 capacity m) (hfd : 0 < fd0) (hfinish : m.finish = true)
    (hblocked : ¬m.Blocked) (io : SocketIO) (answer : SelectAnswer) :
    (m.point = .ended ∧ m.waited = true) ∨
      (∃ i p, m.point = .manage i ∧ m.peerList[i]? = some p ∧
        p.peer.ServerBlocked m.sets.setr io) ∨
      ∃ op ∈ [Op.advance io, .select answer, .waitfor], (m.perform op).isSome := by
  by_cases hselect : m.point = .select
  · refine .inr (.inr ⟨.select answer, by simp, ?_⟩)
    rw [perform, hselect]
    rfl
  by_cases hended : m.point = .ended
  · cases hwaited : m.waited with
    | true => exact .inl ⟨hended, rfl⟩
    | false =>
        refine .inr (.inr ⟨.waitfor, by simp, ?_⟩)
        simp [perform, hended, hfinish, hwaited]
  cases hstep : m.advance io with
  | some t =>
      refine .inr (.inr ⟨.advance io, by simp, ?_⟩)
      rw [perform, hstep]
      rfl
  | none =>
      cases stops_of_advance h hfd hselect hstep with
      | waits hbad hbytes => exact absurd ⟨.inr hbad, hbytes⟩ hblocked
      | ended hend => exact absurd hend hended
      | nullAccess i p hpoint hp hnull => exact .inr (.inl ⟨i, p, hpoint, hp, hnull⟩)
      | peerOutOfRange place p _ _ hnot => rw [hfinish] at hnot; cases hnot
      | controlOutOfRange _ hnot => rw [hfinish] at hnot; cases hnot

theorem callers_own (hown : op.Own) (h : m.Stepped op t) :
    t.callers = m.callers ∧ t.created = m.created := by
  cases h with
  | advance io t h => exact (frame_advanced h).2.2
  | select answer hpoint => cases answer <;> exact ⟨rfl, rfl⟩
  | waitfor => exact ⟨rfl, rfl⟩
  | _ => exact hown.elim

namespace Sample

/-- One peer has been added, the thread sleeps, and the destructor is called. -/
def destroyed : List Op := onePeer ++ [.destroy, .caller 0, .caller 0]

/-- The thread wakes up and ends, and the destructor cleans up. -/
def stops : List Op :=
  [.select (.ready (fun _ => false) fun _ => false)] ++ List.replicate 10 (.advance .idle) ++
  [.waitfor] ++ List.replicate 3 (.advance .idle)

theorem own_stops : ∀ op ∈ stops, op.Own := by
  have hadvances : ∀ n, ∀ op ∈ List.replicate n (Op.advance .idle), op.Own := by
    intro n op hop
    rw [List.eq_of_mem_replicate hop]
    trivial
  simp only [stops, List.forall_mem_append, List.forall_mem_singleton]
  exact ⟨⟨⟨trivial, hadvances 10⟩, trivial⟩, hadvances 3⟩

end Sample

end ManagerThread

end Relb
