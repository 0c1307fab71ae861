import Relb.Lib.Keyed
import Relb.Model.ThreadedConnectionManagerList
import Relb.Proofs.Registration
/-!
# The phases of a manager

What one pass of each loop of `execute` does. A phase of a manager with identities and a count is a
run of iterations of the manager without them: every pass of its loops is one iteration, or changes
nothing. The loops of the registration end behind their lists, and leave the active peers, each of
them watched.
-/

namespace Relb

open Lib

namespace PooledManager

variable {m t u : PooledManager} {p : PeerObject} {i j : Nat} {sets sets' : FdSets}
  {setr setw : FdSet} {io : Nat → SocketIO}

/-! ## One pass of a loop -/

theorem registerIn_cases {list : PooledManager → List PeerObject}
    {setList : PooledManager → List PeerObject → PooledManager}
    {add : FdSets → ConnectionPeer → FdSets}
    (h : registerIn list setList add i (m, sets) = some (j, t, sets')) :
    ∃ p, (list m)[i]? = some p ∧
      (p.peer.isActive = true ∧ j = i + 1 ∧ t = m ∧ sets' = add sets p.peer ∨
        p.peer.isActive = false ∧ j = i ∧ sets' = sets ∧
          t = { setList m ((list m).eraseIdx i) with
            currentconnections := m.currentconnections - 1
            removed := m.removed ++ [p] }) := by
  unfold registerIn at h
  dsimp only at h
  cases hp : (list m)[i]? with
  | none =>
      rw [hp] at h
      cases h
  | some p =>
      refine ⟨p, rfl, ?_⟩
      simp only [hp] at h
      cases hactive : p.peer.isActive with
      | true =>
          rw [if_pos hactive] at h
          cases h
          exact .inl ⟨rfl, rfl, rfl, rfl⟩
      | false =>
          rw [if_neg (by simp [hactive])] at h
          cases h
          exact .inr ⟨rfl, rfl, rfl, rfl⟩

theorem managePeer_cases (h : managePeer setr setw io i m = some (j, t)) :
    ∃ p q, m.peerList[i]? = some p ∧ p.peer.manageConnections setr setw (io p.id) = .ok q ∧
      j = i + 1 ∧ t = { m with peerList := m.peerList.set i { p with peer := q } } := by
  unfold managePeer at h
  cases hp : m.peerList[i]? with
  | none =>
      rw [hp] at h
      cases h
  | some p =>
      simp only [hp] at h
      cases hq : p.peer.manageConnections setr setw (io p.id) with
      | error q =>
          rw [hq] at h
          cases h
      | ok q =>
          rw [hq] at h
          cases h
          exact ⟨p, q, rfl, hq, rfl, rfl⟩

theorem promotePeer_cases (h : promotePeer setr setw io i m = some (j, t)) :
    ∃ p changed q, m.connectingPeerList[i]? = some p ∧
      p.peer.manageConnectingPeer setr setw (io p.id) = .ok (changed, q) ∧
      (changed = true ∧ j = i ∧ t = { m with
          connectingPeerList := m.connectingPeerList.eraseIdx i
          peerList := m.peerList ++ [{ p with peer := q }] } ∨
        changed = false ∧ j = i + 1 ∧ t = { m with
          connectingPeerList := m.connectingPeerList.set i { p with peer := q } }) := by
  unfold promotePeer at h
  cases hp : m.connectingPeerList[i]? with
  | none =>
      rw [hp] at h
      cases h
  | some p =>
      simp only [hp] at h
      cases hq : p.peer.manageConnectingPeer setr setw (io p.id) with
      | error q =>
          rw [hq] at h
          cases h
      | ok r =>
          obtain ⟨changed, q⟩ := r
          refine ⟨p, changed, q, rfl, hq, ?_⟩
          rw [hq] at h
          cases changed with
          | true =>
              cases h
              exact .inl ⟨rfl, rfl, rfl⟩
          | false =>
              cases h
              exact .inr ⟨rfl, rfl, rfl⟩

theorem register_cases {r : PooledManager × FdSets} (h : m.register = some r) :
    ∃ i j s, whileBelow (·.1.peerList.length) registerPeer m.peerList.length 0
        (m, FdSets.zero) = some (i, s) ∧
      whileBelow (·.1.connectingPeerList.length) registerConnectingPeer
        s.1.connectingPeerList.length 0 s = some (j, r) := by
  unfold register at h
  obtain ⟨⟨i, s⟩, hfirst, h⟩ := Option.bind_eq_some_iff.mp h
  obtain ⟨⟨j, u⟩, hsecond, h⟩ := Option.bind_eq_some_iff.mp h
  cases h
  exact ⟨i, j, s, hfirst, hsecond⟩

/-! ## The loops of the registration end behind their lists -/

theorem registerIn_ends {list : PooledManager → List PeerObject}
    {setList : PooledManager → List PeerObject → PooledManager}
    {add : FdSets → ConnectionPeer → FdSets}
    (hlist : ∀ m l n r,
      list { setList m l with currentconnections := n, removed := r } = l)
    (h : whileBelow (fun s => (list s.1).length) (registerIn list setList add) (list m).length 0
      (m, sets) = some (j, t, sets')) : (list t).length ≤ j := by
  have hcloser : ∀ i (s : PooledManager × FdSets) j t, i < (list s.1).length →
      registerIn list setList add i s = some (j, t) →
        (list t.1).length - j < (list s.1).length - i := by
    rintro i ⟨m, sets⟩ j ⟨t, sets'⟩ hi hpass
    obtain ⟨p, -, ⟨-, rfl, rfl, -⟩ | ⟨-, rfl, -, rfl⟩⟩ := registerIn_cases hpass
    · dsimp only at hi ⊢
      omega
    · rw [hlist, List.length_eraseIdx_of_lt hi]
      dsimp only at hi ⊢
      omega
  exact (whileBelow_ends hcloser (by simp) h :)

/-! ## Behind the registration -/

/-- A loop of the registration leaves the active peers of its list, in order. -/
theorem registerIn_filter {list : PooledManager → List PeerObject}
    {setList : PooledManager → List PeerObject → PooledManager}
    {add : FdSets → ConnectionPeer → FdSets}
    (hlist : ∀ m l n r,
      list { setList m l with currentconnections := n, removed := r } = l)
    (h : whileBelow (fun s => (list s.1).length) (registerIn list setList add) (list m).length 0
      (m, sets) = some (j, t, sets')) :
    list t = (list m).filter (·.peer.isActive) := by
  -- what stands in front of the index is kept, and what stands behind it is still to be filtered
  have hfiltered : (list t).take j ++ ((list t).drop j).filter (·.peer.isActive) =
      (list m).filter (·.peer.isActive) := by
    refine whileBelow_keeps (P := fun i s =>
      (list s.1).take i ++ ((list s.1).drop i).filter (·.peer.isActive) =
        (list m).filter (·.peer.isActive)) ?_ rfl h
    rintro i ⟨m, sets⟩ j ⟨t, sets'⟩ hbefore hpass
    obtain ⟨p, hp, hcases⟩ := registerIn_cases hpass
    obtain ⟨hi, hplace⟩ := List.getElem?_eq_some_iff.mp hp
    have hdrop : (list m).drop i = p :: (list m).drop (i + 1) := by
      rw [List.drop_eq_getElem_cons hi, hplace]
    rw [← hbefore, hdrop]
    obtain ⟨hactive, rfl, rfl, -⟩ | ⟨hinactive, rfl, -, rfl⟩ := hcases
    · rw [List.take_succ_eq_append_getElem hi, hplace, List.append_assoc]
      simp [hactive]
    · rw [hlist, List.take_eraseIdx_eq_take_of_le _ _ _ (Nat.le_refl j),
        List.eraseIdx_eq_take_drop_succ, List.drop_append_of_le_length (by simp; omega)]
      simp [hinactive]
  have hend := registerIn_ends hlist h
  rwa [List.take_of_length_le hend, List.drop_of_length_le hend, List.filter_nil,
    List.append_nil] at hfiltered

/-- Each of them is watched. -/
theorem registerIn_watches {list : PooledManager → List PeerObject}
    {setList : PooledManager → List PeerObject → PooledManager}
    {add : FdSets → ConnectionPeer → FdSets} (wanted : ConnectionPeer → Prop)
    (watches : FdSets → ConnectionPeer → Prop)
    (hlist : ∀ m l n r,
      list { setList m l with currentconnections := n, removed := r } = l)
    (hgrows : ∀ (sets : FdSets) p, sets.Grows (add sets p))
    (hwatches : ∀ (a b : FdSets) p, a.Grows b → watches a p → watches b p)
    (hadd : ∀ sets p, wanted p → p.isActive = true → watches (add sets p) p)
    (hwanted : ∀ p ∈ list m, wanted p.peer)
    (h : whileBelow (fun s => (list s.1).length) (registerIn list setList add) (list m).length 0
      (m, sets) = some (j, t, sets')) :
    sets.Grows sets' ∧ ∀ p ∈ list t, watches sets' p.peer := by
  -- what stands before the index has been added
  have hdone : sets.Grows sets' ∧ (∀ p ∈ list t, wanted p.peer) ∧
      ∀ k < j, ∀ p, (list t)[k]? = some p → watches sets' p.peer := by
    refine whileBelow_keeps (P := fun i s => sets.Grows s.2 ∧ (∀ p ∈ list s.1, wanted p.peer) ∧
      ∀ k < i, ∀ p, (list s.1)[k]? = some p → watches s.2 p.peer)
      ?_ ⟨.refl _, hwanted, fun k hk => absurd hk (Nat.not_lt_zero k)⟩ h
    rintro i ⟨m, sets⟩ j ⟨t, sets'⟩ ⟨hbefore, hrest, hseen⟩ hpass
    obtain ⟨p, hp, ⟨hactive, rfl, rfl, rfl⟩ | ⟨-, rfl, rfl, rfl⟩⟩ := registerIn_cases hpass
    · refine ⟨hbefore.trans (hgrows _ _), hrest, fun k hk q hq => ?_⟩
      by_cases hplace : k = i
      · subst hplace
        obtain rfl := Option.some.inj (hp.symm.trans hq)
        exact hadd _ _ (hrest p (List.mem_of_getElem? hp)) hactive
      · exact hwatches _ _ _ (hgrows _ _) (hseen k (by omega) q hq)
    · rw [hlist]
      refine ⟨hbefore, fun q hq => hrest q (List.mem_of_mem_eraseIdx hq), fun k hk q hq => ?_⟩
      rw [List.getElem?_eraseIdx_of_lt hk] at hq
      exact hseen k hk q hq
  have hend := registerIn_ends hlist h
  refine ⟨hdone.1, fun p hp => ?_⟩
  obtain ⟨k, hk⟩ := List.mem_iff_getElem?.mp hp
  have hlt := (List.getElem?_eq_some_iff.mp hk).1
  exact hdone.2.2 k (by omega) p hk

theorem registerIn_other {list : PooledManager → List PeerObject}
    {setList : PooledManager → List PeerObject → PooledManager}
    {add : FdSets → ConnectionPeer → FdSets} {fuel : Nat}
    (h : whileBelow (fun s => (list s.1).length) (registerIn list setList add) fuel 0 (m, sets) =
      some (j, t, sets')) (other : PooledManager → List PeerObject)
    (hother : ∀ m l n r,
      other { setList m l with currentconnections := n, removed := r } = other m) :
    other t = other m := by
  refine whileBelow_keeps (P := fun _ s => other s.1 = other m) ?_ rfl h
  rintro i ⟨m, sets⟩ j ⟨t, sets'⟩ hs hpass
  obtain ⟨p, -, ⟨-, -, rfl, -⟩ | ⟨-, -, -, rfl⟩⟩ := registerIn_cases hpass
  · exact hs
  · exact (hother _ _ _ _).trans hs

/-! ## Iterations -/

/-- The manager without the identities and the count. -/
def erase (m : PooledManager) : ThreadedConnectionManager where
  peerList := m.peerList.map PeerObject.peer
  connectingPeerList := m.connectingPeerList.map PeerObject.peer
  toBeClosed := m.toBeClosed

/-- Iterations of its loops lead from one manager to the other. -/
def Iterates (m t : ThreadedConnectionManager) : Prop :=
  ∃ ops : List ThreadedConnectionManager.Op,
    ops.foldlM (fun m op => (m.perform op).map Prod.fst) m = some t

theorem iterates_refl (m : ThreadedConnectionManager) : Iterates m m := ⟨[], rfl⟩

theorem iterates_step {m t : ThreadedConnectionManager} (op : ThreadedConnectionManager.Op)
    (hop : (m.perform op).map Prod.fst = some t) : Iterates m t :=
  ⟨[op], by simpa using hop⟩

theorem Iterates.trans {m t u : ThreadedConnectionManager} (h : Iterates m t)
    (h' : Iterates t u) : Iterates m u := by
  obtain ⟨ops, hops⟩ := h
  obtain ⟨ops', hops'⟩ := h'
  refine ⟨ops ++ ops', ?_⟩
  rw [List.foldlM_append, hops]
  exact hops'

/-- A loop that does one element after the other, in place. -/
theorem iterates_map {g : List ConnectionPeer → ThreadedConnectionManager} (l : List PeerObject)
    (f : PeerObject → ConnectionPeer)
    (hstep : ∀ (done : List ConnectionPeer) i p, l[i]? = some p → done[i]? = some p.peer →
      Iterates (g done) (g (done.set i (f p)))) :
    Iterates (g (l.map PeerObject.peer)) (g (l.map f)) := by
  have hprefix : ∀ n ≤ l.length, Iterates (g (l.map PeerObject.peer))
      (g ((l.take n).map f ++ (l.drop n).map PeerObject.peer)) := by
    intro n
    induction n with
    | zero => exact fun _ => iterates_refl _
    | succ n ih =>
        intro hn
        have hlt : n < l.length := by omega
        have hlength : ((l.take n).map f).length = n := by
          rw [List.length_map, List.length_take_of_le (by omega)]
        have hplace : ((l.take n).map f ++ (l.drop n).map PeerObject.peer)[n]? =
            some l[n].peer := by
          rw [List.getElem?_append_right (by omega), hlength, Nat.sub_self,
            List.drop_eq_getElem_cons hlt]
          rfl
        have hset : ((l.take n).map f ++ (l.drop n).map PeerObject.peer).set n (f l[n]) =
            (l.take (n + 1)).map f ++ (l.drop (n + 1)).map PeerObject.peer := by
          rw [List.set_append_right _ _ (by omega), hlength, Nat.sub_self,
            List.drop_eq_getElem_cons hlt, List.take_succ_eq_append_getElem hlt, List.map_append,
            List.append_assoc]
          rfl
        have hpass := hstep _ n l[n] (List.getElem?_eq_getElem hlt) hplace
        rw [hset] at hpass
        exact (ih (by omega)).trans hpass
  have hall := hprefix l.length (Nat.le_refl _)
  rwa [List.take_length, List.drop_length, List.map_nil, List.append_nil] at hall

theorem iterates_registerPeer (h : registerPeer i (m, sets) = some (j, t, sets')) :
    Iterates m.erase t.erase := by
  obtain ⟨p, hp, ⟨-, -, rfl, -⟩ | ⟨hinactive, -, -, rfl⟩⟩ := registerIn_cases h
  · exact iterates_refl _
  · refine iterates_step (.removePeer i) ?_
    simp [ThreadedConnectionManager.perform, ThreadedConnectionManager.removePeer, erase, hp,
      hinactive, List.eraseIdx_map]

theorem iterates_registerConnectingPeer
    (h : registerConnectingPeer i (m, sets) = some (j, t, sets')) :
    Iterates m.erase t.erase := by
  obtain ⟨p, hp, ⟨-, -, rfl, -⟩ | ⟨hinactive, -, -, rfl⟩⟩ := registerIn_cases h
  · exact iterates_refl _
  · refine iterates_step (.removeConnectingPeer i) ?_
    simp [ThreadedConnectionManager.perform, ThreadedConnectionManager.removeConnectingPeer,
      erase, hp, hinactive, List.eraseIdx_map]

theorem iterates_managePeer (h : managePeer setr setw io i m = some (j, t)) :
    Iterates m.erase t.erase := by
  obtain ⟨p, q, hp, hq, -, rfl⟩ := managePeer_cases h
  refine iterates_step (.manageConnections i setr setw (io p.id)) ?_
  simp [ThreadedConnectionManager.perform, ThreadedConnectionManager.manageConnections, erase,
    hp, hq]

theorem iterates_promotePeer (h : promotePeer setr setw io i m = some (j, t)) :
    Iterates m.erase t.erase := by
  obtain ⟨p, changed, q, hp, hq, hcases⟩ := promotePeer_cases h
  refine iterates_step (.manageConnectingPeer i setr setw (io p.id)) ?_
  rcases hcases with ⟨rfl, -, rfl⟩ | ⟨rfl, -, rfl⟩
  · simp [ThreadedConnectionManager.perform, ThreadedConnectionManager.manageConnectingPeer,
      erase, hp, hq, List.eraseIdx_map]
  · simp [ThreadedConnectionManager.perform, ThreadedConnectionManager.manageConnectingPeer,
      erase, hp, hq]

theorem iterates_purgeRequests (m : PooledManager) :
    Iterates m.erase m.purgeRequests.erase := by
  have hfold : ∀ (requests : List (Option Ptr)) (t : PooledManager),
      t.toBeClosed = requests.reverse → Iterates t.erase (requests.foldl serveRequest t).erase := by
    intro requests
    induction requests with
    | nil => exact fun t _ => iterates_refl _
    | cons top requests ih =>
        intro t ht
        rw [List.reverse_cons] at ht
        have hserve : Iterates t.erase (t.serveRequest top).erase := by
          refine iterates_step .serveRequest ?_
          simp [ThreadedConnectionManager.perform, ThreadedConnectionManager.serveRequest, erase,
            serveRequest, ht, Function.comp_def]
        refine hserve.trans (ih _ ?_)
        simp [serveRequest, ht]
  exact hfold _ m (List.reverse_reverse _).symm

theorem iterates_checkConnections (m : PooledManager) (io : Nat → SocketIO) :
    Iterates m.erase (m.checkConnections io).erase := by
  have hconnecting := iterates_map
    (g := fun l => ⟨m.peerList.map PeerObject.peer, l, m.toBeClosed⟩) m.connectingPeerList
    (fun p => p.peer.checkConnectingPeers (io p.id)) (fun done i p _ hdone => by
      refine iterates_step (.checkConnectingPeers i (io p.id)) ?_
      simp [ThreadedConnectionManager.perform, ThreadedConnectionManager.checkConnectingPeers,
        hdone])
  have hpeers := iterates_map
    (g := fun l => ⟨l, m.connectingPeerList.map fun p =>
      p.peer.checkConnectingPeers (io p.id), m.toBeClosed⟩) m.peerList
    (fun p => p.peer.checkPeers (io p.id)) (fun done i p _ hdone => by
      refine iterates_step (.checkPeers i (io p.id)) ?_
      simp [ThreadedConnectionManager.perform, ThreadedConnectionManager.checkPeers, hdone])
  have hboth := hconnecting.trans hpeers
  simpa [erase, checkConnections, Function.comp_def] using hboth

/-- A phase is a run of iterations. -/
theorem iterates_perform {phase : Phase} (h : m.perform phase = some t) :
    Iterates m.erase t.erase := by
  cases phase with
  | purgeRequests =>
      obtain rfl := Option.some.inj h
      exact iterates_purgeRequests m
  | register =>
      obtain ⟨r, hr, rfl⟩ := Option.map_eq_some_iff.mp h
      obtain ⟨i, j, s, hfirst, hsecond⟩ := register_cases hr
      have hpeers : Iterates m.erase s.1.erase := by
        refine whileBelow_keeps (P := fun _ s => Iterates m.erase s.1.erase) ?_
          (iterates_refl _) hfirst
        exact fun i s j t hs hpass => hs.trans (iterates_registerPeer hpass)
      refine whileBelow_keeps (P := fun _ s => Iterates m.erase s.1.erase) ?_ hpeers hsecond
      exact fun i s j t hs hpass => hs.trans (iterates_registerConnectingPeer hpass)
  | manageConnections setr setw io =>
      obtain ⟨⟨i, u⟩, hloop, rfl⟩ := Option.map_eq_some_iff.mp h
      refine whileBelow_keeps (P := fun _ t => Iterates m.erase t.erase) ?_ (iterates_refl _) hloop
      exact fun i s j t hs hpass => hs.trans (iterates_managePeer hpass)
  | manageConnectingPeers setr setw io =>
      obtain ⟨⟨i, u⟩, hloop, rfl⟩ := Option.map_eq_some_iff.mp h
      refine whileBelow_keeps (P := fun _ t => Iterates m.erase t.erase) ?_ (iterates_refl _) hloop
      exact fun i s j t hs hpass => hs.trans (iterates_promotePeer hpass)
  | checkConnections io =>
      obtain rfl := Option.some.inj h
      exact iterates_checkConnections m io

end PooledManager

end Relb
