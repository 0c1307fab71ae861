import Relb.Proofs.Capacity
import Relb.Proofs.Holding
/-!
# Descriptors in the sets

`FD_SET` takes a descriptor that is not negative and below `FD_SETSIZE`. A manager limits the number
of its peers, but a descriptor is a number of the whole process, and a socket that could not be
created is registered like any other. A peer never gets a socket that it was not built with, so the
descriptors that `accept` and `socket` return are all that counts.
-/

namespace Relb

open Lib

/-! ## Managers -/

namespace ThreadedConnectionManager

variable {m t : ThreadedConnectionManager} {msgs : List Message} {I : ConnectionPeer → Prop}

theorem Iterated.forall_peers (h : m.Iterated t msgs)
    (hI : ∀ p op q, I p → ConnectionPeer.perform p op = .ok q → I q)
    (hm : ∀ p ∈ m.peers, I p) : ∀ p ∈ t.peers, I p := by
  cases h with
  | one p q rest op hpq hperm ht =>
      intro x hx
      rcases List.mem_cons.mp (ht.mem_iff.mp hx) with rfl | hx
      · exact hI p op x (hm p (hperm.mem_iff.mpr List.mem_cons_self)) hpq
      · exact hm x (hperm.mem_iff.mpr (List.mem_cons_of_mem _ hx))
  | removed p rest hactive hperm ht =>
      intro x hx
      rw [ht] at hx
      exact hm x (hperm.mem_iff.mpr (List.mem_cons_of_mem _ hx))
  | served top htop ht =>
      intro x hx
      rw [ht] at hx
      obtain ⟨p, hp, rfl⟩ := List.mem_map.mp hx
      exact hI p (.closePInfo top) _ (hm p hp) rfl

end ThreadedConnectionManager

namespace PooledManager

variable {m t : PooledManager} {D : Int → Prop} {sets sets' : FdSets} {i j fuel : Nat}

theorem Iterates.forall_peers {I : ConnectionPeer → Prop} {m t : ThreadedConnectionManager}
    (h : Iterates m t) (hI : ∀ p op q, I p → ConnectionPeer.perform p op = .ok q → I q)
    (hm : ∀ p ∈ m.peers, I p) : ∀ p ∈ t.peers, I p := by
  obtain ⟨ops, hops⟩ := h
  refine kept_foldlM (I := fun m => ∀ p ∈ m.peers, I p) (fun op _ s t hs hop => ?_) hm hops
  obtain ⟨⟨u, msgs⟩, hperform, rfl⟩ := Option.map_eq_some_iff.mp hop
  exact (ThreadedConnectionManager.iterated_perform hperform).forall_peers hI hs

/-- The descriptors of all peers are in `D`. -/
def Within (D : Int → Prop) (m : PooledManager) : Prop :=
  ∀ p ∈ m.peerList ++ m.connectingPeerList, p.peer.Within D

theorem within_iff_erase : m.Within D ↔ ∀ p ∈ m.erase.peers, p.Within D := by
  rw [ThreadedConnectionManager.peers, erase, ← List.map_append]
  exact List.forall_mem_map.symm

theorem Within.perform (h : m.Within D) {phase : Phase} (ht : m.perform phase = some t) :
    t.Within D := by
  rw [within_iff_erase] at h ⊢
  exact (iterates_perform ht).forall_peers (fun p op q hp hq => hp.perform hq) h

/-! ## The registration -/

theorem within_registerIn {list : PooledManager → List PeerObject}
    {setList : PooledManager → List PeerObject → PooledManager}
    {add : FdSets → ConnectionPeer → FdSets}
    (hlist : ∀ m l n r,
      list { setList m l with currentconnections := n, removed := r } = l)
    (hadd : ∀ (sets : FdSets) (p : ConnectionPeer), sets.Within D → p.Within D →
      (add sets p).Within D)
    (hsets : sets.Within D) (hm : ∀ p ∈ list m, p.peer.Within D)
    (h : whileBelow (fun s => (list s.1).length) (registerIn list setList add) fuel i (m, sets) =
      some (j, t, sets')) : sets'.Within D := by
  -- the list can only get shorter
  have hloop : sets'.Within D ∧ ∀ p ∈ list t, p.peer.Within D := by
    refine whileBelow_keeps (P := fun _ s => s.2.Within D ∧ ∀ p ∈ list s.1, p.peer.Within D)
      ?_ ⟨hsets, hm⟩ h
    rintro i ⟨m, sets⟩ j ⟨t, sets'⟩ ⟨hsets, hm⟩ hpass
    obtain ⟨p, hp, ⟨-, -, rfl, rfl⟩ | ⟨-, -, rfl, rfl⟩⟩ := registerIn_cases hpass
    · exact ⟨hadd _ _ hsets (hm p (List.mem_of_getElem? hp)), hm⟩
    · refine ⟨hsets, ?_⟩
      rw [hlist]
      exact fun q hq => hm q (List.mem_of_mem_eraseIdx hq)
  exact hloop.1

theorem Within.register (h : m.Within D) (hregister : m.register = some (t, sets)) :
    sets.Within D := by
  obtain ⟨i, j, ⟨u, sets'⟩, hfirst, hsecond⟩ := register_cases hregister
  have hconnecting := registerIn_other hfirst (·.connectingPeerList) fun _ _ _ _ => rfl
  have hpeers := within_registerIn (fun _ _ _ _ => rfl) (fun _ _ hsets hp => hsets.addPeer hp)
    (FdSets.within_zero D) (fun p hp => h p (List.mem_append_left _ hp)) hfirst
  apply within_registerIn (fun _ _ _ _ => rfl) (fun _ _ hsets hp => hsets.addConnectingPeer hp)
    hpeers (fun p hp => ?_) hsecond
  rw [hconnecting] at hp
  exact h p (List.mem_append_right _ hp)

theorem exists_register (m : PooledManager) : ∃ r, m.register = some r := by
  have hpass : ∀ {list : PooledManager → List PeerObject}
      {setList : PooledManager → List PeerObject → PooledManager}
      {add : FdSets → ConnectionPeer → FdSets} (i : Nat) (s : PooledManager × FdSets),
      i < (list s.1).length → (registerIn list setList add i s).isSome := by
    intro list setList add i s hi
    simp only [registerIn, List.getElem?_eq_getElem hi]
    split <;> rfl
  have hloop : ∀ fuel s, ∃ r, whileBelow (·.1.peerList.length) registerPeer fuel 0 s = some r :=
    fun fuel s => Option.isSome_iff_exists.mp (whileBelow_isSome hpass fuel 0 s)
  have hloopConnecting : ∀ fuel s, ∃ r,
      whileBelow (·.1.connectingPeerList.length) registerConnectingPeer fuel 0 s = some r :=
    fun fuel s => Option.isSome_iff_exists.mp (whileBelow_isSome hpass fuel 0 s)
  obtain ⟨⟨i, s⟩, hfirst⟩ := hloop m.peerList.length (m, FdSets.zero)
  obtain ⟨⟨j, r⟩, hsecond⟩ := hloopConnecting s.1.connectingPeerList.length s
  refine ⟨r, ?_⟩
  obtain ⟨u, sets⟩ := s
  unfold PooledManager.register
  rw [hfirst]
  dsimp only [bind, Option.bind] at hsecond ⊢
  rw [hsecond]
  rfl

end PooledManager

/-! ## Runs of the pool -/

namespace ConnectionPool

variable {c d : ConnectionPool} {op : Op} {D : Int → Prop} {returns : Int → Int → Prop}
  {client server : Socket}

/-- What `accept` and `socket` can return for one connection: `Bind` goes on with a positive
descriptor only, and `socket` can fail with `-1`. -/
def CanReturn (client server : Int) : Prop :=
  0 < client ∧ (server = -1 ∨ 0 ≤ server ∧ server ≠ client)

/-- A peer has a socket with this descriptor. -/
def InUse (c : ConnectionPool) (fd : Int) : Prop :=
  ∃ m ∈ c.cmlist.mList, ∃ p ∈ m.peerList ++ m.connectingPeerList, ∃ e s,
    p.peer.socket e = some s ∧ s.sock = fd

/-- A connection gets descriptors that are free, among those that `returns` allows. -/
structure Opens (returns : Int → Int → Prop) (c : ConnectionPool) (client server : Int) :
    Prop where
  canReturn : CanReturn client server
  clientFree : ¬c.InUse client
  serverFree : server ≠ -1 → ¬c.InUse server
  returned : returns client server

/-- The peers that `setServer` builds. -/
def Accepts (returns : Int → Int → Prop) (c : ConnectionPool) : Op → Prop
  | .addConnectionPeer peer => ∃ memory client server jq info,
      peer = .create memory (some client) (some server) jq (some info) ∧
        c.Opens returns client.sock server.sock
  | _ => True

def ReachableBy (guard : ConnectionPool → Op → Prop) : ConnectionPool → Prop :=
  Reach (fun c op c' => c.perform op = some c') guard (· = create)

/-- Whichever manager builds its sets next, every descriptor that it marks is in range. The sets
start out empty, so that their marks are the calls of `FD_SET`. -/
def MarksInRange (c : ConnectionPool) : Prop :=
  ∀ m ∈ c.cmlist.mList, ∃ t sets, m.register = some (t, sets) ∧ sets.Within InRange

/-! ### Descriptors come from outside -/

def Within (D : Int → Prop) (c : ConnectionPool) : Prop := ∀ m ∈ c.cmlist.mList, m.Within D

theorem Within.getFree (h : c.Within D) :
    ∀ m ∈ c.cmlist.getFreeThreadedConnectionManager.1.mList, m.Within D := by
  intro m hm
  rcases c.cmlist.getFree_cases with ⟨k, m', hfree, -⟩ | hnew
  · rw [hfree] at hm
    exact h m hm
  · rw [hnew] at hm
    rcases List.mem_append.mp hm with hm | hm
    · exact h m hm
    · rw [List.mem_singleton.mp hm]
      exact fun p hp => absurd hp List.not_mem_nil

theorem within_create {memory : Endpoint → Nat → UInt8} {jq : Bool} {info : Option Ptr}
    (hclient : D client.sock) (hserver : D server.sock) :
    (ConnectionPeer.create memory (some client) (some server) jq info).Within D := by
  intro e s hs
  cases e with
  | client =>
      obtain rfl := Option.some.inj hs
      exact hclient
  | server =>
      obtain rfl := Option.some.inj hs
      exact hserver

theorem within_addConnectionPeer {m : PooledManager} (h : m.Within D) {p : PeerObject}
    (hp : p.peer.Within D) : (m.addConnectionPeer p).Within D := by
  intro q hq
  rw [PooledManager.addConnectionPeer, ← List.append_assoc] at hq
  rcases List.mem_append.mp hq with hq | hq
  · exact h q hq
  · rw [List.mem_singleton.mp hq]
    exact hp

theorem Within.perform (h : c.Within D)
    (hD : ∀ client server, CanReturn client server → returns client server → D client ∧ D server)
    (haccepts : c.Accepts returns op) (hstep : c.perform op = some d) : d.Within D := by
  cases stepped_perform hstep with
  | setPeersPerThread ppt =>
      unfold Within ThreadedConnectionManagerList.setPeersPerThread
      split <;> exact h
  | getFree => exact h.getFree
  | addConnectionPeer k peer =>
      obtain ⟨memory, client, server, jq, info, rfl, hopens⟩ := haccepts
      obtain ⟨hclient, hserver⟩ := hD _ _ hopens.canReturn hopens.returned
      exact forall_mem_modify h fun m hm =>
        within_addConnectionPeer (h m hm) (within_create hclient hserver)
  | refuse => exact h
  | closePInfo k pinfo => exact forall_mem_modify h h
  | manager k phase m t hm ht =>
      exact forall_mem_modify h fun _ _ => (h m (List.mem_of_getElem? hm)).perform ht

theorem ReachableBy.within (h : ReachableBy (Accepts returns) c)
    (hD : ∀ client server, CanReturn client server → returns client server →
      D client ∧ D server) : c.Within D := by
  refine Reach.invariant (I := Within D) ?_ (fun c op d hc hop hstep => hc.perform hD hop hstep) h
  rintro c rfl
  exact fun m hm => absurd hm List.not_mem_nil

theorem Within.marksInRange (h : c.Within InRange) : c.MarksInRange := by
  intro m hm
  obtain ⟨⟨t, sets⟩, hregister⟩ := m.exists_register
  exact ⟨t, sets, hregister, (h m hm).register hregister⟩

/-! ### The first connection -/

/-- One peer has been added to the first manager. -/
def firstPeer (peer : ConnectionPeer) : ConnectionPool where
  cmlist :=
    ⟨maxPeersPerFdset, [(PooledManager.create maxPeersPerFdset).addConnectionPeer ⟨0, peer⟩]⟩
  pcm := none
  created := 1

theorem reachable_firstPeer (memory : Endpoint → Nat → UInt8) (client server : Socket) (jq : Bool)
    (info : Ptr) (hcan : CanReturn client.sock server.sock)
    (hreturns : returns client.sock server.sock) :
    ReachableBy (Accepts returns)
      (firstPeer (.create memory (some client) (some server) jq (some info))) := by
  have hempty : ∀ fd, ¬InUse ⟨create.cmlist.addNew.1, some 0, 0⟩ fd := by
    rintro fd ⟨m, hm, p, hp, -⟩
    rw [List.mem_singleton.mp hm] at hp
    cases hp
  have hasked : ReachableBy (Accepts returns) ⟨create.cmlist.addNew.1, some 0, 0⟩ :=
    .next (a := .getFreeThreadedConnectionManager) (.start rfl) trivial rfl
  refine .next (a := .addConnectionPeer _) hasked ?_ rfl
  exact ⟨memory, client, server, jq, info, rfl, hcan, hempty _, fun _ => hempty _, hreturns⟩

theorem marks_firstPeer {memory : Endpoint → Nat → UInt8} {jq : Bool} {info : Option Ptr}
    (h : (firstPeer (.create memory (some client) (some server) jq info)).MarksInRange) :
    InRange client.sock ∧ InRange server.sock := by
  obtain ⟨t, sets, hregister, hwithin⟩ := h _ List.mem_cons_self
  obtain ⟨rfl, rfl⟩ := Prod.mk.inj (Option.some.inj hregister)
  constructor
  · apply hwithin.setr
    simp [FdSets.addConnectingPeer, ConnectionPeer.addToFDSETC, ConnectionPeer.addIfBytes,
      ConnectionPeer.create, Buffer.reset, stamBufferSocket, Socket.addToFDSET]
  · apply hwithin.setw
    simp [FdSets.addConnectingPeer, ConnectionPeer.addToFDSETC, ConnectionPeer.create,
      Socket.addToFDSET]

/-- In every run all descriptors that are marked are in range, exactly if all descriptors that
`accept` and `socket` return are. -/
theorem marksInRange_iff (returns : Int → Int → Prop) :
    (∀ c, ReachableBy (Accepts returns) c → c.MarksInRange) ↔
      ∀ client server, CanReturn client server → returns client server →
        InRange client ∧ InRange server := by
  constructor
  · intro h client server hcan hreturns
    have hreachable := reachable_firstPeer (fun _ _ => 0) ⟨client, ⟨0, 0, 0, 0⟩, 0⟩
      ⟨server, ⟨0, 0, 0, 0⟩, 0⟩ false 0 hcan hreturns
    exact marks_firstPeer (h _ hreachable)
  · intro h c hc
    exact (hc.within h).marksInRange

namespace Sample

/-- The first connection of a client with descriptor `client`. -/
def connection (client server : Int) : ConnectionPool :=
  firstPeer (.create (fun _ _ => 0) (some ⟨client, ⟨10, 0, 0, 1⟩, 1000⟩)
    (some ⟨server, ⟨10, 0, 0, 2⟩, 80⟩) true (some 1))

end Sample

/-- A server socket that could not be created is marked, and so is a descriptor that is too large,
with one peer in one manager. -/
theorem failed_socket_marked :
    (ReachableBy (Accepts fun _ _ => True) (Sample.connection 5 (-1)) ∧
        ¬(Sample.connection 5 (-1)).MarksInRange) ∧
      ReachableBy (Accepts fun _ _ => True) (Sample.connection 1024 6) ∧
        ¬(Sample.connection 1024 6).MarksInRange := by
  refine ⟨⟨?_, fun h => ?_⟩, ?_, fun h => ?_⟩
  · exact reachable_firstPeer _ _ _ _ _ ⟨by decide, .inl rfl⟩ trivial
  · exact absurd (marks_firstPeer h).2.1 (by decide)
  · exact reachable_firstPeer _ _ _ _ _ ⟨by decide, .inr ⟨by decide, by decide⟩⟩ trivial
  · exact absurd (marks_firstPeer h).1.2 (by decide)

end ConnectionPool

end Relb
