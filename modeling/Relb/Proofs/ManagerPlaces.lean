import Relb.Proofs.ManagerSteps
import Relb.Proofs.Phases
/-!
# What the manager's thread relies on

The thread works on its lists by their indices, while other threads add peers and requests behind
it. What it has found at an index stays there, and the peers in front of the index of the
registration stay in the descriptor sets. When `select` has marked the control socket there is a
byte to read.
-/

namespace Relb

open Lib

theorem Grows.addToFDSET {a b : FdSet × Int} (h : Grows a b) (s : Socket) :
    Grows (s.addToFDSET a.1 a.2) (s.addToFDSET b.1 b.2) := by
  have hmax := h.maxFd
  constructor
  · intro fd hfd
    unfold Socket.addToFDSET at hfd ⊢
    rw [Bool.or_eq_true] at hfd ⊢
    exact hfd.imp_right (h.marked fd)
  · unfold Socket.addToFDSET
    dsimp only
    split_ifs <;> omega

theorem Grows.addIfBytes {a b : FdSet × Int} (h : Grows a b) (ptr : Option Socket) (bytes : Nat) :
    Grows (ConnectionPeer.addIfBytes ptr bytes a.1 a.2)
      (ConnectionPeer.addIfBytes ptr bytes b.1 b.2) := by
  unfold ConnectionPeer.addIfBytes
  cases ptr with
  | none => exact h
  | some s =>
      dsimp only
      split
      · exact h.addToFDSET s
      · exact h

namespace FdSets

variable {a b : FdSets} {p : ConnectionPeer} {kind : PeerKind}

theorem zero_grows (h : 0 ≤ a.maxFd) : zero.Grows a :=
  ⟨⟨fun _ hfd => (nomatch hfd), h⟩, ⟨fun _ hfd => (nomatch hfd), h⟩⟩

theorem Grows.addPeer (h : a.Grows b) (p : ConnectionPeer) :
    (a.addPeer p).Grows (b.addPeer p) := by
  have hread := (h.setr.addIfBytes p.pClient p.bufferForServer.bytesToReceive).addIfBytes
    p.pServer p.bufferForClient.bytesToReceive
  have hbefore : Relb.Grows (a.setw, (p.addToFDSETR a.setr a.maxFd).2)
      (b.setw, (p.addToFDSETR b.setr b.maxFd).2) := ⟨h.setw.marked, hread.maxFd⟩
  have hwrite := (hbefore.addIfBytes p.pClient p.bufferForClient.bytesToSend).addIfBytes
    p.pServer p.bufferForServer.bytesToSend
  exact ⟨⟨hread.marked, hwrite.maxFd⟩, hwrite⟩

theorem Grows.addConnectingPeer (h : a.Grows b) (p : ConnectionPeer) :
    (a.addConnectingPeer p).Grows (b.addConnectingPeer p) := by
  have hread := h.setr.addIfBytes p.pClient p.bufferForServer.bytesToReceive
  unfold FdSets.addConnectingPeer ConnectionPeer.addToFDSETC
  cases p.pServer with
  | none => exact ⟨hread, ⟨h.setw.marked, hread.maxFd⟩⟩
  | some s =>
      have hbefore : Relb.Grows
          (a.setw, (ConnectionPeer.addIfBytes p.pClient p.bufferForServer.bytesToReceive
            a.setr a.maxFd).2)
          (b.setw, (ConnectionPeer.addIfBytes p.pClient p.bufferForServer.bytesToReceive
            b.setr b.maxFd).2) := ⟨h.setw.marked, hread.maxFd⟩
      have hwrite := hbefore.addToFDSET s
      exact ⟨⟨hread.marked, hwrite.maxFd⟩, hwrite⟩

theorem Grows.addFor (h : a.Grows b) (kind : PeerKind) (p : ConnectionPeer) :
    (a.addFor kind p).Grows (b.addFor kind p) := by
  cases kind with
  | connected => exact h.addPeer p
  | connecting => exact h.addConnectingPeer p

theorem grows_addFor (sets : FdSets) (kind : PeerKind) (p : ConnectionPeer) :
    sets.Grows (sets.addFor kind p) := by
  cases kind with
  | connected => exact grows_addPeer sets p
  | connecting => exact grows_addConnectingPeer sets p

theorem asked_own (kind : PeerKind) (p : ConnectionPeer) :
    (asked kind p).Within fun fd => ∃ e s, p.socket e = some s ∧ s.sock = fd := by
  have hown : p.Within fun fd => ∃ e s, p.socket e = some s ∧ s.sock = fd :=
    fun e s hs => ⟨e, s, hs, rfl⟩
  cases kind with
  | connected => exact (within_zero _).addPeer hown
  | connecting => exact (within_zero _).addConnectingPeer hown

/-- The test of the model says what it is meant to say. -/
theorem inRange_iff (kind : PeerKind) (p : ConnectionPeer) :
    inRange kind p = true ↔ (asked kind p).Within InRange := by
  have hends : inRange kind p = true ↔ ∀ e s, p.socket e = some s → InRange s.sock ∨
      ¬((asked kind p).setr s.sock = true ∨ (asked kind p).setw s.sock = true) := by
    have hone : ∀ e, (p.socket e).all (fun s => decide (InRange s.sock) ||
        !((asked kind p).setr s.sock || (asked kind p).setw s.sock)) = true ↔
          ∀ s, p.socket e = some s → InRange s.sock ∨
            ¬((asked kind p).setr s.sock = true ∨ (asked kind p).setw s.sock = true) := by
      intro e
      cases p.socket e <;> simp
    constructor
    · intro h e
      rw [inRange, List.all_cons, List.all_cons, Bool.and_eq_true, Bool.and_eq_true] at h
      cases e with
      | client => exact (hone .client).mp h.1
      | server => exact (hone .server).mp h.2.1
    · intro h
      rw [inRange, List.all_cons, List.all_cons, Bool.and_eq_true, Bool.and_eq_true]
      exact ⟨(hone .client).mpr (h .client), (hone .server).mpr (h .server), rfl⟩
  have hown := asked_own kind p
  rw [hends]
  constructor
  · intro h
    constructor
    · intro fd hfd
      obtain ⟨e, s, hs, rfl⟩ := hown.setr fd hfd
      exact (h e s hs).resolve_right fun hnot => hnot (.inl hfd)
    · intro fd hfd
      obtain ⟨e, s, hs, rfl⟩ := hown.setw fd hfd
      exact (h e s hs).resolve_right fun hnot => hnot (.inr hfd)
  · intro h e s _
    by_cases hmarked : (asked kind p).setr s.sock = true ∨ (asked kind p).setw s.sock = true
    · exact .inl (hmarked.elim (h.setr _) (h.setw _))
    · exact .inr hmarked

/-- The sets have all descriptors that a peer waits for, and `FD_SET` is defined for them. -/
structure Covers (sets : FdSets) (kind : PeerKind) (p : ConnectionPeer) : Prop where
  inRange : (asked kind p).Within InRange
  grows : (asked kind p).Grows sets

theorem Covers.trans (h : a.Covers kind p) (hgrows : a.Grows b) : b.Covers kind p :=
  ⟨h.inRange, h.grows.trans hgrows⟩

theorem grows_addControl (sets : FdSets) (c : ControlSocket) : sets.Grows (sets.addControl c) := by
  have hread : Relb.Grows (sets.setr, sets.maxFd) (c.addToFDSET sets.setr sets.maxFd) := by
    unfold ControlSocket.addToFDSET
    split
    · exact (⟨c.fd0, ⟨0, 0, 0, 0⟩, 0⟩ : Socket).grows_addToFDSET sets.setr sets.maxFd
    · exact .refl _
  exact ⟨hread, ⟨fun _ hfd => hfd, hread.maxFd⟩⟩

end FdSets

namespace ManagerThread

variable {m t : ManagerThread} {op : Op} {place : PeerPlace} {fd0 : Int} {capacity : Nat}

/-- What has been found at an index is still there. -/
def InPlace (m : ManagerThread) : Prop :=
  match m.point with
  | .purge (.top _) | .purge .pop => m.toBeClosed ≠ []
  | .purge (.offer place _ _) =>
      m.toBeClosed ≠ [] ∧ place.index < (m.peers place.kind).length
  | .register place | .check place => place.index < (m.peers place.kind).length
  | .remove place p => (m.peers place.kind)[place.index]? = some p
  | .manage i => i < m.peerList.length
  | .promote i => i < m.connectingPeerList.length
  | .leave i p => m.connectingPeerList[i]? = some p
  | _ => True

/-- The place that the registration has come to. -/
def registering (m : ManagerThread) : Option PeerPlace :=
  match m.point with
  | .registerTest place | .register place | .remove place _ | .delete place _ => some place
  | .beforeSelect | .select | .badDescriptor => some ⟨.connecting, m.connectingPeers⟩
  | _ => none

/-- The peers of a list that have been registered, when the registration has come to a place. -/
def before (m : ManagerThread) (place : PeerPlace) : PeerKind → List PeerObject
  | .connected =>
      match place.kind with
      | .connected => m.peerList.take place.index
      | .connecting => m.peerList
  | .connecting =>
      match place.kind with
      | .connected => []
      | .connecting => m.connectingPeerList.take place.index

/-- The registration stands within its list, and the peers in front of it are in the sets. -/
structure RegisteredUpTo (m : ManagerThread) (place : PeerPlace) : Prop where
  index_le : place.index ≤ (m.peers place.kind).length
  covers : ∀ kind, ∀ p ∈ m.before place kind, m.sets.Covers kind p.peer
  maxFd : 0 ≤ m.sets.maxFd

/-- The control socket is watched, and read only when there is a byte. -/
def Control (m : ManagerThread) : Prop :=
  match m.point with
  | .select | .badDescriptor =>
      m.controlSocket.fd0 < fdSetSize ∧ m.sets.setr m.controlSocket.fd0 = true ∧
        m.controlSocket.fd0 ≤ m.sets.maxFd
  | .checkSocket => m.sets.setr m.controlSocket.fd0 = true → 0 < m.controlSocket.bytes
  | _ => True

/-! ## The registration -/

namespace RegisteredUpTo

theorem of_before (h : m.RegisteredUpTo place)
    (hindex : place.index ≤ (t.peers place.kind).length)
    (hbefore : ∀ kind, t.before place kind = m.before place kind) (hsets : m.sets.Grows t.sets) :
    t.RegisteredUpTo place where
  index_le := hindex
  covers kind p hp := by
    rw [hbefore kind] at hp
    exact (h.covers kind p hp).trans hsets
  maxFd := Int.le_trans h.maxFd hsets.setr.maxFd

theorem of_eq (h : m.RegisteredUpTo place) (hpeers : t.peerList = m.peerList)
    (hconnecting : t.connectingPeerList = m.connectingPeerList) (hsets : t.sets = m.sets) :
    t.RegisteredUpTo place := by
  refine h.of_before ?_ (fun kind => ?_) (hsets ▸ .refl _)
  · have hle := h.index_le
    unfold peers at hle ⊢
    rwa [hpeers, hconnecting]
  · unfold before
    rw [hpeers, hconnecting]

theorem append (h : m.RegisteredUpTo place) (p : PeerObject) :
    RegisteredUpTo { m with connectingPeerList := m.connectingPeerList ++ [p] } place := by
  obtain ⟨kind, i⟩ := place
  have hle := h.index_le
  refine h.of_before ?_ (fun other => ?_) (.refl _)
  · cases kind with
    | connected => exact hle
    | connecting =>
        change i ≤ (m.connectingPeerList ++ [p]).length
        rw [List.length_append]
        exact Nat.le_trans hle (Nat.le_add_right _ _)
  · cases kind <;> cases other <;> try rfl
    change (m.connectingPeerList ++ [p]).take i = m.connectingPeerList.take i
    exact List.take_append_of_le_length hle

theorem erase {p : PeerObject} (h : m.RegisteredUpTo place)
    (hp : (m.peers place.kind)[place.index]? = some p) :
    (m.setPeers place.kind ((m.peers place.kind).eraseIdx place.index)).RegisteredUpTo place := by
  have hlt := (List.getElem?_eq_some_iff.mp hp).1
  obtain ⟨kind, i⟩ := place
  refine h.of_before ?_ (fun other => ?_) ?_
  · rw [peers_setPeers_self, List.length_eraseIdx_of_lt hlt]
    dsimp only at hlt ⊢
    omega
  · cases kind <;> cases other <;> first
      | rfl
      | exact List.take_eraseIdx_eq_take_of_le _ _ _ (Nat.le_refl i)
  · cases kind <;> exact .refl _

/-- The peer in place is added to the sets. -/
theorem add {p : PeerObject} (h : m.RegisteredUpTo place)
    (hp : (m.peers place.kind)[place.index]? = some p)
    (hinRange : FdSets.inRange place.kind p.peer = true) :
    RegisteredUpTo { m with sets := m.sets.addFor place.kind p.peer } place.next := by
  have hgrows := FdSets.grows_addFor m.sets place.kind p.peer
  have hadded : (m.sets.addFor place.kind p.peer).Covers place.kind p.peer :=
    ⟨(FdSets.inRange_iff _ _).mp hinRange,
      (FdSets.zero_grows h.maxFd).addFor place.kind p.peer⟩
  have hlt := (List.getElem?_eq_some_iff.mp hp).1
  refine ⟨hlt, fun other q hq => ?_, Int.le_trans h.maxFd hgrows.setr.maxFd⟩
  have hcases : q ∈ m.before place other ∨ other = place.kind ∧ q = p := by
    obtain ⟨kind, i⟩ := place
    have htake : (m.peers kind).take (i + 1) = (m.peers kind).take i ++ [p] := by
      rw [List.take_add_one, hp]
      rfl
    cases kind <;> cases other
    · rw [show before _ _ _ = (m.peers .connected).take (i + 1) from rfl, htake] at hq
      exact (List.mem_append.mp hq).imp_right fun hq => ⟨rfl, List.mem_singleton.mp hq⟩
    · exact .inl hq
    · exact .inl hq
    · rw [show before _ _ _ = (m.peers .connecting).take (i + 1) from rfl, htake] at hq
      exact (List.mem_append.mp hq).imp_right fun hq => ⟨rfl, List.mem_singleton.mp hq⟩
  rcases hcases with hq | ⟨rfl, rfl⟩
  · exact (h.covers other q hq).trans hgrows
  · exact hadded

theorem behind (h : m.RegisteredUpTo place) (hplace : (m.peers place.kind).length ≤ place.index) :
    ∃ place', (m.registered place).registering = some place' ∧
      (m.registered place).RegisteredUpTo place' := by
  obtain ⟨kind, i⟩ := place
  cases kind with
  | connected =>
      refine ⟨⟨.connecting, 0⟩, rfl, Nat.zero_le _, fun other p hp => ?_, h.maxFd⟩
      cases other with
      | connected =>
          have htake : m.peerList.take i = m.peerList := List.take_of_length_le hplace
          apply h.covers .connected p
          change p ∈ m.peerList.take i
          rw [htake]
          exact hp
      | connecting => cases hp
  | connecting => exact ⟨⟨.connecting, i⟩, rfl, h.of_eq rfl rfl rfl⟩

end RegisteredUpTo

/-! ## What every step keeps -/

structure Standing (m : ManagerThread) : Prop where
  inPlace : m.InPlace
  registered : ∀ place, m.registering = some place → m.RegisteredUpTo place
  control : m.Control
  fd0 : 0 < m.controlSocket.fd0

theorem standing_create (hfd : 0 < fd0) (capacity : Nat) :
    (create (.create fd0 capacity)).Standing where
  inPlace := trivial
  registered _ hplace := nomatch hplace
  control := trivial
  fd0 := hfd

theorem Standing.of_none (h : m.Standing) (hplace : t.InPlace) (hregistering : t.registering = none)
    (hcontrol : t.Control) (hsocket : t.controlSocket.fd0 = m.controlSocket.fd0) : t.Standing where
  inPlace := hplace
  registered place hsome := by
    rw [hregistering] at hsome
    cases hsome
  control := hcontrol
  fd0 := hsocket ▸ h.fd0

theorem Standing.of_some (h : m.Standing) (hplace : t.InPlace)
    (hregistering : t.registering = some place) (hregistered : t.RegisteredUpTo place)
    (hcontrol : t.Control) (hsocket : t.controlSocket.fd0 = m.controlSocket.fd0) : t.Standing where
  inPlace := hplace
  registered place' hsome := by
    obtain rfl := Option.some.inj (hregistering.symm.trans hsome)
    exact hregistered
  control := hcontrol
  fd0 := hsocket ▸ h.fd0

theorem checkSocket_fd0 {c c' : ControlSocket} {set : FdSet} {ret : Int}
    (h : c.checkSocket set = some (ret, c')) : c'.fd0 = c.fd0 := by
  unfold ControlSocket.checkSocket at h
  split_ifs at h <;> obtain ⟨-, rfl⟩ := Prod.mk.inj (Option.some.inj h) <;> rfl

theorem Standing.advanced (h : m.Standing) (hstep : m.Advanced t) : t.Standing := by
  have hplace := h.inPlace
  have hregistered := h.registered
  cases hstep with
  | finishes hpoint hfinish => exact h.of_none trivial rfl trivial rfl
  | begins hpoint hfinish => exact h.of_none trivial rfl trivial rfl
  | scans hpoint hrequests => exact h.of_none hrequests rfl trivial rfl
  | purged hpoint hrequests => exact h.of_none trivial rfl trivial rfl
  | tops place top hpoint hlt htop =>
      rw [InPlace, hpoint] at hplace
      exact h.of_none ⟨hplace, hlt⟩ rfl trivial rfl
  | behind place hpoint hle =>
      rw [InPlace, hpoint] at hplace
      obtain ⟨kind, i⟩ := place
      cases kind <;> exact h.of_none hplace rfl trivial rfl
  | offers place height top p hpoint hp =>
      rw [InPlace, hpoint] at hplace
      obtain ⟨kind, i⟩ := place
      cases kind <;> exact h.of_none hplace.1 rfl trivial rfl
  | pops hpoint hrequests => exact h.of_none trivial rfl trivial rfl
  | registers hpoint =>
      refine h.of_some trivial rfl ⟨Nat.zero_le _, fun kind p hp => ?_, Int.le_refl _⟩ trivial rfl
      cases kind <;> cases hp
  | registerNext place hpoint hlt =>
      exact h.of_some hlt rfl ((hregistered place (by rw [registering, hpoint])).of_eq rfl rfl rfl)
        trivial rfl
  | registered place hpoint hle =>
      obtain ⟨place', hregistering, hnew⟩ :=
        (hregistered place (by rw [registering, hpoint])).behind hle
      obtain ⟨kind, i⟩ := place
      cases kind <;> exact h.of_some trivial hregistering hnew trivial rfl
  | adds place p hpoint hp hfinish hactive hinRange =>
      have hnew := (hregistered place (by rw [registering, hpoint])).add hp hinRange
      exact h.of_some trivial rfl (hnew.of_eq rfl rfl rfl) trivial rfl
  | drops place p hpoint hp hdrop =>
      exact h.of_some hp rfl ((hregistered place (by rw [registering, hpoint])).of_eq rfl rfl rfl)
        trivial rfl
  | removes place p hpoint =>
      rw [InPlace, hpoint] at hplace
      have hnew := (hregistered place (by rw [registering, hpoint])).erase hplace
      obtain ⟨kind, i⟩ := place
      cases kind <;> exact h.of_some trivial rfl (hnew.of_eq rfl rfl rfl) trivial rfl
  | deletes place p hpoint =>
      exact h.of_some trivial rfl
        ((hregistered place (by rw [registering, hpoint])).of_eq rfl rfl rfl) trivial rfl
  | skipsSelect hpoint hfinish => exact h.of_none trivial rfl trivial rfl
  | selects hpoint hfinish hlt =>
      have hold := hregistered _ (by rw [registering, hpoint])
      have hgrows := FdSets.grows_addControl m.sets m.controlSocket
      refine h.of_some trivial rfl (hold.of_before hold.index_le (fun kind => ?_) hgrows) ?_ rfl
      · cases kind <;> rfl
      · unfold Control FdSets.addControl ControlSocket.addToFDSET
        rw [if_pos h.fd0]
        refine ⟨hlt, by simp, ?_⟩
        dsimp only
        split <;> omega
  | checksSocket ret c hpoint hc => exact h.of_none trivial rfl trivial (checkSocket_fd0 hc)
  | manageNext i hpoint hlt => exact h.of_none hlt rfl trivial rfl
  | managed i hpoint hle => exact h.of_none trivial rfl trivial rfl
  | manages i p q io hpoint hp hq => exact h.of_none trivial rfl trivial rfl
  | promoteNext i hpoint hlt => exact h.of_none hlt rfl trivial rfl
  | promoted i hpoint hle => exact h.of_none trivial rfl trivial rfl
  | promotes i p changed q io hpoint hp hq =>
      cases changed with
      | false => exact h.of_none trivial rfl trivial rfl
      | true =>
          refine h.of_none ?_ rfl trivial rfl
          exact List.getElem?_set_self (List.getElem?_eq_some_iff.mp hp).1
  | leaves i p hpoint => exact h.of_none trivial rfl trivial rfl
  | joins i p hpoint => exact h.of_none trivial rfl trivial rfl
  | checksBad ret c hpoint hc =>
      have hfd := checkSocket_fd0 hc
      by_cases hret : 0 ≤ ret
      · rw [if_pos hret]
        exact h.of_none trivial rfl trivial hfd
      · rw [if_neg hret]
        exact h.of_none trivial rfl trivial hfd
  | checkNext place hpoint hlt => exact h.of_none hlt rfl trivial rfl
  | checked place hpoint hle =>
      obtain ⟨kind, i⟩ := place
      cases kind <;> exact h.of_none trivial rfl trivial rfl
  | checks place p io hpoint hp =>
      obtain ⟨kind, i⟩ := place
      cases kind <;> exact h.of_none trivial rfl trivial rfl
  | cleans kind p rest hpoint hpeers =>
      cases kind <;> refine h.of_none ?_ ?_ ?_ rfl <;>
        simp [InPlace, registering, Control, setPeers, hpoint]
  | cleaned kind hpoint hpeers => cases kind <;> exact h.of_none trivial rfl trivial rfl
  | forgets pinfo rest hpoint hrequests =>
      refine h.of_none ?_ ?_ ?_ rfl <;> simp [InPlace, registering, Control, hpoint]
  | ends hpoint hrequests => exact h.of_none trivial rfl trivial rfl

/-! ## The other threads -/

/-- The lists and the requests can only get longer. -/
theorem InPlace.longer (h : m.InPlace) (hpoint : t.point = m.point)
    (hpeers : m.peerList <+: t.peerList)
    (hconnecting : m.connectingPeerList <+: t.connectingPeerList)
    (hrequests : m.toBeClosed ≠ [] → t.toBeClosed ≠ []) : t.InPlace := by
  have hlists : ∀ kind, m.peers kind <+: t.peers kind := by
    intro kind
    cases kind with
    | connected => exact hpeers
    | connecting => exact hconnecting
  have hlt : ∀ kind i, i < (m.peers kind).length → i < (t.peers kind).length :=
    fun kind i hi => Nat.lt_of_lt_of_le hi (hlists kind).length_le
  have hget : ∀ kind (i : Nat) p, (m.peers kind)[i]? = some p → (t.peers kind)[i]? = some p := by
    intro kind i p hp
    obtain ⟨l, hl⟩ := hlists kind
    rw [← hl, List.getElem?_append_left (List.getElem?_eq_some_iff.mp hp).1, hp]
  unfold InPlace at h ⊢
  rw [hpoint]
  split at h
  · exact hrequests h
  · exact hrequests h
  · exact ⟨hrequests h.1, hlt _ _ h.2⟩
  · exact hlt _ _ h
  · exact hlt _ _ h
  · exact hget _ _ _ h
  · exact hlt .connected _ h
  · exact hlt .connecting _ h
  · exact hget .connecting _ _ h
  · trivial

theorem Standing.longer (h : m.Standing) (hpoint : t.point = m.point) (hplace : t.InPlace)
    (hregistered : ∀ place, m.RegisteredUpTo place → t.RegisteredUpTo place)
    (hcount : t.connectingPeers = m.connectingPeers) (hsets : t.sets = m.sets)
    (hfd : t.controlSocket.fd0 = m.controlSocket.fd0)
    (hbytes : m.controlSocket.bytes ≤ t.controlSocket.bytes) : t.Standing where
  inPlace := hplace
  registered place hsome := by
    apply hregistered
    apply h.registered place
    rw [← hsome, registering, registering, hpoint, hcount]
  control := by
    have hcontrol := h.control
    unfold Control at hcontrol ⊢
    rw [hpoint, hsets, hfd]
    split at hcontrol
    · exact hcontrol
    · exact hcontrol
    · exact fun hmarked => Nat.lt_of_lt_of_le (hcontrol hmarked) hbytes
    · trivial
  fd0 := hfd ▸ h.fd0

theorem post_cases {c c' : ControlSocket} (h : c.post = some c') :
    c'.fd0 = c.fd0 ∧ c'.capacity = c.capacity ∧ c.bytes ≤ c'.bytes := by
  unfold ControlSocket.post at h
  split_ifs at h <;> obtain rfl := Option.some.inj h
  · exact ⟨rfl, rfl, Nat.le_refl _⟩
  · exact ⟨rfl, rfl, Nat.le_succ _⟩

theorem Standing.called {caller : Caller} {rest : Option Caller} (h : m.Standing)
    (hstep : m.Called caller t rest) (callers : List Caller) :
    Standing { t with callers := callers } := by
  have hsame : ∀ u : ManagerThread, u.peerList = m.peerList →
      u.connectingPeerList = m.connectingPeerList → u.sets = m.sets →
        ∀ place, m.RegisteredUpTo place → u.RegisteredUpTo place :=
    fun u hpeers hconnecting hsets place hplace => hplace.of_eq hpeers hconnecting hsets
  cases hstep with
  | counts p =>
      exact h.longer rfl (h.inPlace.longer rfl (List.prefix_refl _) (List.prefix_refl _) id)
        (hsame _ rfl rfl rfl) rfl rfl rfl (Nat.le_refl _)
  | addsPeer p =>
      refine h.longer rfl (h.inPlace.longer rfl (List.prefix_refl _) (List.prefix_append _ _) id)
        (fun place hplace => ?_) rfl rfl rfl (Nat.le_refl _)
      exact (hplace.append p).of_eq rfl rfl rfl
  | requests pinfo =>
      refine h.longer rfl (h.inPlace.longer rfl (List.prefix_refl _) (List.prefix_refl _) ?_)
        (hsame _ rfl rfl rfl) rfl rfl rfl (Nat.le_refl _)
      exact fun _ => List.concat_ne_nil pinfo m.toBeClosed
  | destroys =>
      exact h.longer rfl (h.inPlace.longer rfl (List.prefix_refl _) (List.prefix_refl _) id)
        (hsame _ rfl rfl rfl) rfl rfl rfl (Nat.le_refl _)
  | posts c hc =>
      obtain ⟨hfd, -, hbytes⟩ := post_cases hc
      exact h.longer rfl (h.inPlace.longer rfl (List.prefix_refl _) (List.prefix_refl _) id)
        (hsame _ rfl rfl rfl) rfl rfl hfd hbytes

theorem Standing.selected (h : m.Standing) (hpoint : m.point = .select) (answer : SelectAnswer) :
    (m.selected answer).Standing := by
  cases answer with
  | ready setr setw =>
      refine h.of_none trivial rfl (fun hmarked => ?_) rfl
      dsimp only [ManagerThread.selected, FdSets.restrict] at hmarked ⊢
      rw [if_pos rfl, Bool.and_eq_true] at hmarked
      exact of_decide_eq_true hmarked.2
  | badDescriptor =>
      have hregistered := h.registered _ (by rw [registering, hpoint])
      have hcontrol := h.control
      rw [Control, hpoint] at hcontrol
      exact h.of_some trivial rfl (hregistered.of_eq rfl rfl rfl) hcontrol rfl
  | other => exact h.of_none trivial rfl trivial rfl

theorem Standing.stepped (h : m.Standing) (hstep : m.Stepped op t) : t.Standing := by
  have hcalls : ∀ callers created,
      Standing { m with callers := callers, created := created } := by
    intro callers created
    exact h.longer rfl (h.inPlace.longer rfl (List.prefix_refl _) (List.prefix_refl _) id)
      (fun place hplace => hplace.of_eq rfl rfl rfl) rfl rfl rfl (Nat.le_refl _)
  cases hstep with
  | advance io t hstep => exact h.advanced hstep
  | select answer hpoint => exact h.selected hpoint answer
  | waitfor hpoint hfinish hwaited => exact h.of_none trivial rfl trivial rfl
  | addConnectionPeer peer => exact hcalls _ _
  | closePInfo pinfo => exact hcalls _ _
  | destroy => exact hcalls _ _
  | caller k caller t rest hcaller hcalled => exact h.called hcalled _

theorem Reachable.standing (h : Reachable fd0 capacity m) (hfd : 0 < fd0) : m.Standing := by
  refine Reach.invariant (I := Standing) ?_ (fun m op t hm _ hstep => ?_) h
  · rintro m rfl
    exact standing_create hfd capacity
  · exact hm.stepped (stepped_perform hstep)

end ManagerThread

end Relb
