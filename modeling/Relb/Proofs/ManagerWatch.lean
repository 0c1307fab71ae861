import Relb.Proofs.Descriptors
/-!
# What the managers wait for

A peer on one of the lists of a manager is a peer in the hands of a manager: `peer_list` holds the
promoted ones, and every iteration of a loop does with each peer one of the steps of `Managed`, or
nothing. So what such a step keeps holds of all peers of all managers, and behind a registration
`select` looks at every peer that is active.
-/

namespace Relb

open Lib

/-! ## Peers on the lists -/

namespace ThreadedConnectionManager

variable {m t : ThreadedConnectionManager} {op : Op} {msgs : List Message} {I : Managed → Prop}

/-- `I` holds of every peer, in the way of the list that it is on. -/
structure OnLists (I : Managed → Prop) (m : ThreadedConnectionManager) : Prop where
  peers : ∀ p ∈ m.peerList, I ⟨p, true⟩
  connecting : ∀ p ∈ m.connectingPeerList, I ⟨p, false⟩

/-- What the steps in the hands of a manager keep. -/
def KeptBySteps (I : Managed → Prop) : Prop :=
  ∀ m step t, I m → Managed.perform m step = .ok t → I t

theorem KeptBySteps.closePInfo (hI : KeptBySteps I) {p : ConnectionPeer} {promoted : Bool}
    (h : I ⟨p, promoted⟩) (top : Option Ptr) : I ⟨p.closePInfo top, promoted⟩ := by
  by_cases htop : p.pinfo = top
  · subst htop
    exact hI ⟨p, promoted⟩ .closeRequest _ h rfl
  · rwa [ConnectionPeer.closePInfo_other htop]

theorem OnLists.perform (h : m.OnLists I) (hI : KeptBySteps I)
    (ht : m.perform op = some (t, msgs)) : t.OnLists I := by
  cases op with
  | serveRequest =>
      simp only [ThreadedConnectionManager.perform, serveRequest] at ht
      split at ht
      · cases ht
      · obtain ⟨rfl, -⟩ := Prod.mk.inj (Option.some.inj ht)
        exact ⟨List.forall_mem_map.mpr fun p hp => hI.closePInfo (h.peers p hp) _,
          List.forall_mem_map.mpr fun p hp => hI.closePInfo (h.connecting p hp) _⟩
  | removePeer i =>
      simp only [ThreadedConnectionManager.perform, removePeer] at ht
      split at ht
      · split at ht
        · cases ht
        · obtain ⟨rfl, -⟩ := Prod.mk.inj (Option.some.inj ht)
          exact ⟨fun p hp => h.peers p (List.mem_of_mem_eraseIdx hp), h.connecting⟩
      · cases ht
  | removeConnectingPeer i =>
      simp only [ThreadedConnectionManager.perform, removeConnectingPeer] at ht
      split at ht
      · split at ht
        · cases ht
        · obtain ⟨rfl, -⟩ := Prod.mk.inj (Option.some.inj ht)
          exact ⟨h.peers, fun p hp => h.connecting p (List.mem_of_mem_eraseIdx hp)⟩
      · cases ht
  | manageConnections i setr setw io =>
      simp only [ThreadedConnectionManager.perform, manageConnections] at ht
      split at ht
      · rename_i p hp
        split at ht
        · rename_i q hq
          obtain ⟨rfl, -⟩ := Prod.mk.inj (Option.some.inj ht)
          have hnext : I ⟨q, true⟩ := by
            refine hI ⟨p, true⟩ (.manage setr setw io) _ (h.peers p (List.mem_of_getElem? hp)) ?_
            simp [Managed.perform, hq]
          exact ⟨forall_mem_set h.peers hnext, h.connecting⟩
        · cases ht
      · cases ht
  | manageConnectingPeer i setr setw io =>
      simp only [ThreadedConnectionManager.perform, manageConnectingPeer] at ht
      split at ht
      · rename_i p hp
        have hnext : ∀ changed q, p.manageConnectingPeer setr setw io = .ok (changed, q) →
            I ⟨q, changed⟩ := by
          intro changed q hq
          exact hI ⟨p, false⟩ (.manage setr setw io) _ (h.connecting p (List.mem_of_getElem? hp))
            (Managed.perform_manage_connecting rfl hq)
        split at ht
        · rename_i q hq
          obtain ⟨rfl, -⟩ := Prod.mk.inj (Option.some.inj ht)
          refine ⟨List.forall_mem_append.mpr ⟨h.peers, ?_⟩,
            fun p hp => h.connecting p (List.mem_of_mem_eraseIdx hp)⟩
          exact List.forall_mem_singleton.mpr (hnext true q hq)
        · rename_i q hq
          obtain ⟨rfl, -⟩ := Prod.mk.inj (Option.some.inj ht)
          exact ⟨h.peers, forall_mem_set h.connecting (hnext false q hq)⟩
        · cases ht
      · cases ht
  | checkConnectingPeers i io =>
      simp only [ThreadedConnectionManager.perform, checkConnectingPeers] at ht
      split at ht
      · rename_i p hp
        obtain ⟨rfl, -⟩ := Prod.mk.inj (Option.some.inj ht)
        exact ⟨h.peers, forall_mem_set h.connecting
          (hI ⟨p, false⟩ (.check io) _ (h.connecting p (List.mem_of_getElem? hp)) rfl)⟩
      · cases ht
  | checkPeers i io =>
      simp only [ThreadedConnectionManager.perform, checkPeers] at ht
      split at ht
      · rename_i p hp
        obtain ⟨rfl, -⟩ := Prod.mk.inj (Option.some.inj ht)
        exact ⟨forall_mem_set h.peers
          (hI ⟨p, true⟩ (.check io) _ (h.peers p (List.mem_of_getElem? hp)) rfl), h.connecting⟩
      · cases ht

end ThreadedConnectionManager

/-! ## Managers -/

namespace PooledManager

open ThreadedConnectionManager (OnLists KeptBySteps)

variable {m t : PooledManager} {I : Managed → Prop}

theorem onLists_perform (h : m.erase.OnLists I) (hI : KeptBySteps I) {phase : Phase}
    (ht : m.perform phase = some t) : t.erase.OnLists I := by
  obtain ⟨ops, hops⟩ := iterates_perform ht
  refine kept_foldlM (I := OnLists I) (fun op _ s u hs hop => ?_) h hops
  obtain ⟨⟨v, msgs⟩, hperform, rfl⟩ := Option.map_eq_some_iff.mp hop
  exact hs.perform hI hperform

theorem onLists_addConnectionPeer (h : m.erase.OnLists I) {p : PeerObject}
    (hp : I ⟨p.peer, false⟩) : (m.addConnectionPeer p).erase.OnLists I := by
  refine ⟨h.peers, ?_⟩
  rw [erase, addConnectionPeer, List.map_append]
  exact List.forall_mem_append.mpr ⟨h.connecting, List.forall_mem_singleton.mpr hp⟩

/-- Where the peer is, and what it waits for. -/
structure Settled (m : Managed) : Prop where
  inPlace : m.InPlace
  steady : m.peer.Steady
  reachable : m.peer.Reachable

theorem keptBySteps_settled : KeptBySteps Settled := by
  intro m step t h ht
  obtain ⟨op, hop⟩ := Managed.perform_peer ht
  exact ⟨h.inPlace.perform ht, h.steady.perform hop, h.reachable.perform op hop⟩

theorem Settled.watchedBy {m : Managed} (h : Settled m) (hactive : m.peer.isActive = true)
    (sets : FdSets) : m.WatchedBy sets :=
  h.inPlace.watchedBy (h.steady.registered fun d =>
    ((ConnectionPeer.sane_of_reachable h.reachable).faithful d).sound) hactive sets

/-- The registration leaves the active peers, and `select` looks at each of them: at the server of
one that is being connected, and at some endpoint of one that is connected. -/
theorem register_watches (h : m.erase.OnLists Settled) {sets : FdSets}
    (hregister : m.register = some (t, sets)) :
    t.peerList = m.peerList.filter (·.peer.isActive) ∧
      t.connectingPeerList = m.connectingPeerList.filter (·.peer.isActive) ∧
        (∀ p ∈ t.peerList, sets.Watches p.peer) ∧
          ∀ p ∈ t.connectingPeerList, sets.WatchesServer p.peer := by
  obtain ⟨i, j, ⟨u, sets'⟩, hfirst, hsecond⟩ := register_cases hregister
  have hconnectings := registerIn_other hfirst (·.connectingPeerList) fun _ _ _ _ => rfl
  have hpeerList := registerIn_other hsecond (·.peerList) fun _ _ _ _ => rfl
  have hleft := registerIn_watches (fun p => Settled ⟨p, true⟩) FdSets.Watches (fun _ _ _ _ => rfl)
    FdSets.grows_addPeer (fun _ _ _ hgrows => hgrows.watches)
    (fun sets p hp hactive => hp.watchedBy hactive sets)
    (fun p hp => h.peers p.peer (List.mem_map_of_mem hp)) hfirst
  have hright := registerIn_watches (fun p => Settled ⟨p, false⟩) FdSets.WatchesServer
    (fun _ _ _ _ => rfl) FdSets.grows_addConnectingPeer (fun _ _ _ hgrows => hgrows.watchesServer)
    (fun sets p hp hactive => hp.watchedBy hactive sets)
    (fun p hp => h.connecting p.peer (List.mem_map_of_mem (hconnectings ▸ hp))) hsecond
  refine ⟨?_, ?_, fun p hp => ?_, hright.2⟩
  · exact hpeerList.trans (registerIn_filter (fun _ _ _ _ => rfl) hfirst)
  · exact (registerIn_filter (fun _ _ _ _ => rfl) hsecond).trans (by rw [← hconnectings])
  · exact hright.1.watches (hleft.2 p (hpeerList ▸ hp))

end PooledManager

/-! ## Runs of the pool -/

namespace ConnectionPool

open PooledManager (Settled)

variable {c d : ConnectionPool} {op : Op} {returns : Int → Int → Prop}

/-- Every peer on the lists of the managers is settled. -/
def AllSettled (c : ConnectionPool) : Prop := ∀ m ∈ c.cmlist.mList, m.erase.OnLists Settled

theorem AllSettled.perform (h : c.AllSettled)
    (hreturns : ∀ client server, CanReturn client server → returns client server →
      client < fdSetSize ∧ 0 < server ∧ server < fdSetSize)
    (haccepts : c.Accepts returns op) (hstep : c.perform op = some d) : d.AllSettled := by
  cases stepped_perform hstep with
  | setPeersPerThread ppt =>
      unfold AllSettled ThreadedConnectionManagerList.setPeersPerThread
      split <;> exact h
  | getFree =>
      intro m hm
      rcases c.cmlist.getFree_cases with ⟨k, m', hfree, -⟩ | hnew
      · rw [hfree] at hm
        exact h m hm
      · rw [hnew] at hm
        rcases List.mem_append.mp hm with hm | hm
        · exact h m hm
        · rw [List.mem_singleton.mp hm]
          exact ⟨fun p hp => (List.not_mem_nil hp).elim, fun p hp => (List.not_mem_nil hp).elim⟩
  | addConnectionPeer k peer =>
      obtain ⟨memory, client, server, jq, info, rfl, hopens⟩ := haccepts
      obtain ⟨hclient, hpositive, hserver⟩ := hreturns _ _ hopens.canReturn hopens.returned
      have hselectable : client.Selectable := ⟨hopens.canReturn.1, hclient⟩
      refine forall_mem_modify h fun m hm =>
        PooledManager.onLists_addConnectionPeer (h m hm) ⟨.inl ⟨rfl, ?_⟩, ?_, ?_⟩
      · exact ConnectionPeer.CreatedOpen.awaiting ⟨memory, client, server, jq, some info, rfl⟩
      · exact ConnectionPeer.steady_create hselectable ⟨hpositive, hserver⟩
      · exact .start ⟨memory, some client, some server, jq, some info, rfl⟩
  | refuse => exact h
  | closePInfo k pinfo =>
      exact forall_mem_modify h fun m hm => ⟨(h m hm).peers, (h m hm).connecting⟩
  | manager k phase m t hm ht =>
      exact forall_mem_modify h fun _ _ => PooledManager.onLists_perform
        (h m (List.mem_of_getElem? hm)) PooledManager.keptBySteps_settled ht

/-- No manager keeps a peer that it waits for in vain. -/
theorem peers_watched (h : ReachableBy (Accepts returns) c)
    (hreturns : ∀ client server, CanReturn client server → returns client server →
      client < fdSetSize ∧ 0 < server ∧ server < fdSetSize)
    {m : PooledManager} (hm : m ∈ c.cmlist.mList) :
    ∃ t sets, m.register = some (t, sets) ∧
      t.peerList = m.peerList.filter (·.peer.isActive) ∧
        t.connectingPeerList = m.connectingPeerList.filter (·.peer.isActive) ∧
          (∀ p ∈ t.peerList, sets.Watches p.peer) ∧
            ∀ p ∈ t.connectingPeerList, sets.WatchesServer p.peer := by
  have hsettled : c.AllSettled := by
    refine Reach.invariant (I := AllSettled) ?_
      (fun c op d hc hop hstep => hc.perform hreturns hop hstep) h
    rintro c rfl
    exact fun m hm => (List.not_mem_nil hm).elim
  obtain ⟨⟨t, sets⟩, hregister⟩ := m.exists_register
  exact ⟨t, sets, hregister, PooledManager.register_watches (hsettled m hm) hregister⟩

/-- The first connection, with descriptors `5` and `6`. -/
theorem peers_watched_first : ∃ m t sets, (Sample.connection 5 6).cmlist.mList = [m] ∧
    m.register = some (t, sets) ∧
      t.peerList = m.peerList.filter (·.peer.isActive) ∧
        t.connectingPeerList = m.connectingPeerList.filter (·.peer.isActive) ∧
          (∀ p ∈ t.peerList, sets.Watches p.peer) ∧
            ∀ p ∈ t.connectingPeerList, sets.WatchesServer p.peer := by
  have hreach : ReachableBy (Accepts fun client server => client = 5 ∧ server = 6)
      (Sample.connection 5 6) :=
    reachable_firstPeer _ _ _ _ _ ⟨by decide, .inr ⟨by decide, by decide⟩⟩ ⟨rfl, rfl⟩
  obtain ⟨t, sets, hregister, hleft⟩ := peers_watched hreach
    (fun client server _ hboth => by rw [hboth.1, hboth.2]; decide) List.mem_cons_self
  exact ⟨_, t, sets, rfl, hregister, hleft⟩

end ConnectionPool

end Relb
