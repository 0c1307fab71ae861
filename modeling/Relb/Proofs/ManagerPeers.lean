import Relb.Proofs.Capacity
import Relb.Proofs.ManagerPlaces
/-!
# No peer is lost between the threads

A peer changes hands between the thread that adds it and the manager, and between the lists of the
manager, while other threads add peers to one of these lists. Wherever the threads stand, each peer
is in one place until it is deleted, and deleted once; and the count differs from the lists by the
peers that are on their way.
-/

namespace Relb

open Lib

def Caller.peer : Caller → Option PeerObject
  | .addConnectionPeer p | .addPeer p => some p
  | _ => none

/-- The peer has been counted, and is not on the list yet. -/
def Caller.counted : Caller → Bool
  | .addPeer _ => true
  | _ => false

/-- The peer that the manager has taken off one list, and not put on the other or deleted. -/
def ManagerPoint.inTransit : ManagerPoint → List PeerObject
  | .delete _ p | .join _ p => [p]
  | _ => []

/-- Behind the loop of `execute`. -/
def ManagerPoint.Cleaning : ManagerPoint → Prop
  | .cleanup _ | .cleanupRequests | .ended => True
  | _ => False

namespace ManagerThread

open PooledManager (occurrences occurrences_append occurrences_singleton occurrences_perm
  map_id_set)

variable {m t : ManagerThread} {op : Op} {p : PeerObject} {x : Nat} {fd0 : Int} {capacity : Nat}

/-- In how many places object `x` is. -/
def places (m : ManagerThread) (x : Nat) : Nat :=
  occurrences (m.callers.filterMap Caller.peer) x + occurrences m.peerList x +
    occurrences m.connectingPeerList x + occurrences m.point.inTransit x + occurrences m.removed x

/-- The peers that `currentconnections` stands for. -/
def counted (m : ManagerThread) : Nat :=
  m.callers.countP Caller.counted + m.peerList.length + m.connectingPeerList.length +
    m.point.inTransit.length

/-! ## The manager's own thread -/

/-- What a step of the thread keeps. -/
structure SamePeers (m t : ManagerThread) : Prop where
  places_eq : ∀ x, t.places x = m.places x
  created_eq : t.created = m.created
  counts : ¬t.point.Cleaning → ¬m.point.Cleaning ∧
    t.currentconnections - t.counted = m.currentconnections - m.counted

theorem SamePeers.of_ids (hpeers : t.peerList.map PeerObject.id = m.peerList.map PeerObject.id)
    (hconnecting : t.connectingPeerList.map PeerObject.id =
      m.connectingPeerList.map PeerObject.id)
    (htransit : t.point.inTransit = m.point.inTransit)
    (hcleaning : ¬t.point.Cleaning → ¬m.point.Cleaning) (hcallers : t.callers = m.callers)
    (hremoved : t.removed = m.removed) (hcreated : t.created = m.created)
    (hcount : t.currentconnections = m.currentconnections) : m.SamePeers t where
  places_eq x := by
    rw [places, places, occurrences_perm (.of_eq hpeers), occurrences_perm (.of_eq hconnecting),
      htransit, hcallers, hremoved]
  created_eq := hcreated
  counts hnot := by
    have hlength := congrArg List.length hpeers
    have hlength' := congrArg List.length hconnecting
    rw [List.length_map, List.length_map] at hlength hlength'
    rw [counted, counted, hlength, hlength', htransit, hcallers,
      hcount]
    exact ⟨hcleaning hnot, rfl⟩

theorem SamePeers.moves {point : ManagerPoint} (htransit : point.inTransit = m.point.inTransit)
    (hcleaning : ¬point.Cleaning → ¬m.point.Cleaning) : m.SamePeers (m.goto point) :=
  .of_ids rfl rfl htransit hcleaning rfl rfl rfl rfl

theorem map_id_update {place : PeerPlace} (hp : (m.peers place.kind)[place.index]? = some p)
    (q : ConnectionPeer) :
    (m.update place p q).peerList.map PeerObject.id = m.peerList.map PeerObject.id ∧
      (m.update place p q).connectingPeerList.map PeerObject.id =
        m.connectingPeerList.map PeerObject.id := by
  obtain ⟨kind, i⟩ := place
  cases kind with
  | connected => exact ⟨map_id_set hp q, rfl⟩
  | connecting => exact ⟨rfl, map_id_set hp q⟩

theorem SamePeers.updates (place : PeerPlace) {point : ManagerPoint}
    (hp : (m.peers place.kind)[place.index]? = some p) (q : ConnectionPeer)
    (htransit : m.point.inTransit = []) (hpoint : point.inTransit = [])
    (hcleaning : ¬m.point.Cleaning) : m.SamePeers ((m.update place p q).goto point) := by
  obtain ⟨hpeers, hconnecting⟩ := map_id_update hp q
  refine .of_ids hpeers hconnecting (hpoint.trans htransit.symm) (fun _ => hcleaning) ?_ ?_ ?_ ?_
  all_goals obtain ⟨kind, i⟩ := place; cases kind <;> rfl

/-- A peer leaves its list, and is on its way. -/
theorem SamePeers.erases (place : PeerPlace) {point : ManagerPoint}
    (hp : (m.peers place.kind)[place.index]? = some p) (htransit : m.point.inTransit = [])
    (hpoint : point.inTransit = [p]) (hcleaning : ¬m.point.Cleaning) :
    m.SamePeers ((m.setPeers place.kind ((m.peers place.kind).eraseIdx place.index)).goto point) :=
  by
  obtain ⟨kind, i⟩ := place
  have hperm := perm_cons_eraseIdx hp
  have hlength := hperm.length_eq
  rw [List.length_cons] at hlength
  have hids : ∀ x, occurrences (m.peers kind) x =
      occurrences [p] x + occurrences ((m.peers kind).eraseIdx i) x := by
    intro x
    rw [← occurrences_append, List.singleton_append]
    exact hperm.countP_eq _
  constructor
  case places_eq =>
    intro x
    have hx := hids x
    cases kind <;> simp only [places, goto, setPeers, peers, hpoint, htransit] at hx ⊢ <;>
      simp only [occurrences, List.countP_nil] at hx ⊢ <;> omega
  case created_eq => cases kind <;> rfl
  case counts =>
    refine fun _ => ⟨hcleaning, ?_⟩
    cases kind <;>
      simp only [counted, goto, setPeers, peers, hpoint, htransit,
        List.length_singleton, List.length_nil] at hlength ⊢ <;> omega

theorem samePeers_advanced (hplace : m.InPlace) (h : m.Advanced t) : m.SamePeers t := by
  have hnot : ∀ {point : ManagerPoint}, m.point = point → ¬point.Cleaning → ¬m.point.Cleaning :=
    fun hpoint hcleaning => hpoint ▸ hcleaning
  have hnone : ∀ {point : ManagerPoint}, m.point = point → point.inTransit = [] →
      m.point.inTransit = [] := fun hpoint htransit => hpoint ▸ htransit
  cases h with
  | finishes hpoint hfinish => exact .moves (hnone hpoint rfl).symm fun _ => hnot hpoint id
  | begins hpoint hfinish => exact .moves (hnone hpoint rfl).symm fun _ => hnot hpoint id
  | scans hpoint hrequests => exact .moves (hnone hpoint rfl).symm fun _ => hnot hpoint id
  | purged hpoint hrequests => exact .moves (hnone hpoint rfl).symm fun _ => hnot hpoint id
  | tops place top hpoint hlt htop =>
      exact .moves (hnone hpoint rfl).symm fun _ => hnot hpoint id
  | behind place hpoint hle =>
      refine .moves ?_ fun _ => hnot hpoint id
      cases place.kind <;> exact (hnone hpoint rfl).symm
  | offers place height top p hpoint hp =>
      exact .updates _ hp _ (hnone hpoint rfl) rfl (hnot hpoint id)
  | pops hpoint hrequests =>
      exact .of_ids rfl rfl (hnone hpoint rfl).symm (fun _ => hnot hpoint id) rfl rfl rfl rfl
  | registers hpoint =>
      exact .of_ids rfl rfl (hnone hpoint rfl).symm (fun _ => hnot hpoint id) rfl rfl rfl rfl
  | registerNext place hpoint hlt =>
      exact .moves (hnone hpoint rfl).symm fun _ => hnot hpoint id
  | registered place hpoint hle =>
      obtain ⟨kind, i⟩ := place
      cases kind <;>
        exact .of_ids rfl rfl (hnone hpoint rfl).symm (fun _ => hnot hpoint id) rfl rfl rfl rfl
  | adds place p hpoint hp hfinish hactive =>
      exact .of_ids rfl rfl (hnone hpoint rfl).symm (fun _ => hnot hpoint id) rfl rfl rfl rfl
  | drops place p hpoint hp hdrop =>
      exact .moves (hnone hpoint rfl).symm fun _ => hnot hpoint id
  | removes place p hpoint =>
      rw [InPlace, hpoint] at hplace
      exact .erases _ hplace (hnone hpoint rfl) rfl (hnot hpoint id)
  | deletes place p hpoint =>
      refine ⟨fun x => ?_, rfl, fun _ => ⟨hnot hpoint id, ?_⟩⟩
      · simp only [places, hpoint, occurrences_append, ManagerPoint.inTransit]
        simp only [occurrences, List.countP_nil]
        omega
      · simp only [counted, hpoint, ManagerPoint.inTransit, List.length_singleton,
          List.length_nil]
        omega
  | skipsSelect hpoint hfinish => exact .moves (hnone hpoint rfl).symm fun _ => hnot hpoint id
  | selects hpoint hfinish =>
      exact .of_ids rfl rfl (hnone hpoint rfl).symm (fun _ => hnot hpoint id) rfl rfl rfl rfl
  | checksSocket ret c hpoint hc =>
      exact .of_ids rfl rfl (hnone hpoint rfl).symm (fun _ => hnot hpoint id) rfl rfl rfl rfl
  | manageNext i hpoint hlt => exact .moves (hnone hpoint rfl).symm fun _ => hnot hpoint id
  | managed i hpoint hle => exact .moves (hnone hpoint rfl).symm fun _ => hnot hpoint id
  | manages i p q io hpoint hp hq =>
      exact .updates ⟨.connected, i⟩ hp q (hnone hpoint rfl) rfl (hnot hpoint id)
  | promoteNext i hpoint hlt => exact .moves (hnone hpoint rfl).symm fun _ => hnot hpoint id
  | promoted i hpoint hle => exact .moves (hnone hpoint rfl).symm fun _ => hnot hpoint id
  | promotes i p changed q io hpoint hp hq =>
      refine .updates ⟨.connecting, i⟩ hp q (hnone hpoint rfl) ?_ (hnot hpoint id)
      cases changed <;> rfl
  | leaves i p hpoint =>
      rw [InPlace, hpoint] at hplace
      exact .erases ⟨.connecting, i⟩ hplace (hnone hpoint rfl) rfl (hnot hpoint id)
  | joins i p hpoint =>
      refine ⟨fun x => ?_, rfl, fun _ => ⟨hnot hpoint id, ?_⟩⟩
      · simp only [places, setPeers, goto, hpoint, occurrences_append,
          ManagerPoint.inTransit]
        simp only [occurrences, List.countP_nil]
        omega
      · simp only [counted, setPeers, goto, hpoint, ManagerPoint.inTransit, List.length_append,
          List.length_singleton, List.length_nil]
        omega
  | checksBad ret c hpoint hc =>
      refine .of_ids rfl rfl ?_ (fun _ => hnot hpoint id) rfl rfl rfl rfl
      rw [hnone hpoint rfl]
      dsimp only
      split <;> rfl
  | checkNext place hpoint hlt => exact .moves (hnone hpoint rfl).symm fun _ => hnot hpoint id
  | checked place hpoint hle =>
      refine .moves ?_ fun _ => hnot hpoint id
      cases place.kind <;> exact (hnone hpoint rfl).symm
  | checks place p io hpoint hp =>
      exact .updates _ hp _ (hnone hpoint rfl) rfl (hnot hpoint id)
  | cleans kind p rest hpoint hpeers =>
      have hclean : m.point.Cleaning := by
        rw [hpoint]
        trivial
      refine ⟨fun x => ?_, ?_, fun hnot => absurd ?_ hnot⟩
      · cases kind <;>
          simp only [peers] at hpeers <;>
          simp only [places, setPeers, hpeers, occurrences_append] <;>
          simp only [occurrences, List.countP_cons, List.countP_nil] <;> omega
      · cases kind <;> rfl
      · cases kind <;> exact hclean
  | cleaned kind hpoint hpeers =>
      refine .moves ?_ fun hnot => absurd ?_ hnot
      · cases kind <;> exact (hnone hpoint rfl).symm
      · cases kind <;> trivial
  | forgets pinfo rest hpoint hrequests => exact .of_ids rfl rfl rfl id rfl rfl rfl rfl
  | ends hpoint hrequests =>
      exact .moves (hnone hpoint rfl).symm fun hnot => absurd trivial hnot

/-! ## The other threads -/

theorem occurrences_callers {callers : List Caller} {k : Nat} {caller : Caller}
    (hcaller : callers[k]? = some caller) (rest : Option Caller) (x : Nat) :
    occurrences ((callers.eraseIdx k ++ rest.toList).filterMap Caller.peer) x +
        occurrences caller.peer.toList x =
      occurrences (callers.filterMap Caller.peer) x +
        occurrences (rest.bind Caller.peer).toList x := by
  have hrest : rest.toList.filterMap Caller.peer = (rest.bind Caller.peer).toList := by
    cases rest with
    | none => rfl
    | some caller => cases caller <;> rfl
  have hone : [caller].filterMap Caller.peer = caller.peer.toList := by
    cases caller <;> rfl
  have hperm := ((perm_cons_eraseIdx hcaller).filterMap Caller.peer).countP_eq
    fun p : PeerObject => p.id == x
  rw [← List.singleton_append, List.filterMap_append, List.countP_append, hone] at hperm
  rw [List.filterMap_append, occurrences_append, hrest]
  simp only [occurrences] at hperm ⊢
  omega

/-- Every peer that has been created is in one place, and the counter stands for those that are
not deleted. -/
structure Conserved (m : ManagerThread) : Prop where
  places : ∀ x, m.places x = if x < m.created then 1 else 0
  counted : ¬m.point.Cleaning → m.currentconnections = m.counted

theorem Conserved.advanced (h : m.Conserved) (hplace : m.InPlace) (hstep : m.Advanced t) :
    t.Conserved := by
  have hsame := samePeers_advanced hplace hstep
  refine ⟨fun x => ?_, fun hnot => ?_⟩
  · rw [hsame.places_eq, hsame.created_eq]
    exact h.places x
  · obtain ⟨hbefore, hcount⟩ := hsame.counts hnot
    have hcounted := h.counted hbefore
    omega

theorem Conserved.called {k : Nat} {caller : Caller} {rest : Option Caller} (h : m.Conserved)
    (hcaller : m.callers[k]? = some caller) (hstep : m.Called caller t rest) :
    Conserved { t with callers := t.callers.eraseIdx k ++ rest.toList } := by
  have hids := occurrences_callers hcaller rest
  have hcount : (m.callers.eraseIdx k ++ rest.toList).countP Caller.counted +
      [caller].countP Caller.counted =
        m.callers.countP Caller.counted + rest.toList.countP Caller.counted := by
    have hperm := (perm_cons_eraseIdx hcaller).countP_eq Caller.counted
    rw [← List.singleton_append, List.countP_append] at hperm
    rw [List.countP_append]
    omega
  have hplaces := h.places
  have hcounted := h.counted
  cases hstep with
  | counts p =>
      refine ⟨fun x => ?_, fun hnot => ?_⟩
      · rw [← hplaces x]
        have hx := hids x
        simp only [ManagerThread.places, Caller.peer, Option.bind_some] at hx ⊢
        omega
      · have hbefore := hcounted hnot
        simp only [ManagerThread.counted, List.countP_singleton, Caller.counted,
          Bool.false_eq_true, reduceIte, Option.toList_some] at hbefore hcount ⊢
        omega
  | addsPeer p =>
      refine ⟨fun x => ?_, fun hnot => ?_⟩
      · rw [← hplaces x]
        have hx := hids x
        simp only [ManagerThread.places, Caller.peer, Option.bind_some, occurrences_append,
          Option.toList_some, Option.toList_none] at hx ⊢
        simp only [occurrences, List.countP_nil] at hx ⊢
        omega
      · have hbefore := hcounted hnot
        simp only [ManagerThread.counted, List.countP_singleton, Caller.counted,
          Bool.false_eq_true, reduceIte, Option.toList_some, List.length_append,
          List.length_singleton] at hbefore hcount ⊢
        omega
  | requests pinfo | destroys | posts =>
      refine ⟨fun x => ?_, fun hnot => ?_⟩
      · rw [← hplaces x]
        have hx := hids x
        simp only [ManagerThread.places, Caller.peer, Option.bind_some, Option.bind_none,
          Option.toList_none] at hx ⊢
        omega
      · have hbefore := hcounted hnot
        simp only [ManagerThread.counted, List.countP_singleton, Caller.counted,
          Bool.false_eq_true, reduceIte, Option.toList_some, Option.toList_none,
          List.countP_nil] at hbefore hcount ⊢
        omega

theorem Conserved.stepped (h : m.Conserved) (hplace : m.InPlace) (hstep : m.Stepped op t) :
    t.Conserved := by
  have hother : ∀ caller : Caller, caller.peer = none → caller.counted = false →
      Conserved { m with callers := m.callers ++ [caller] } := by
    intro caller hpeer hcounted
    refine ⟨fun x => ?_, fun hnot => ?_⟩
    · rw [← h.places x]
      simp [ManagerThread.places, hpeer]
    · rw [h.counted hnot]
      simp [ManagerThread.counted, hcounted]
  cases hstep with
  | advance io t hstep => exact h.advanced hplace hstep
  | select answer hpoint =>
      have hnone : m.point.inTransit = [] := by
        rw [hpoint]
        rfl
      have hnot : ¬m.point.Cleaning := by
        rw [hpoint]
        exact id
      have hsame : m.SamePeers (m.selected answer) := by
        cases answer <;> exact .of_ids rfl rfl hnone.symm (fun _ => hnot) rfl rfl rfl rfl
      refine ⟨fun x => ?_, fun hnot => ?_⟩
      · rw [hsame.places_eq, hsame.created_eq]
        exact h.places x
      · obtain ⟨hbefore, hcount⟩ := hsame.counts hnot
        have hcounted := h.counted hbefore
        omega
  | waitfor hpoint hfinish hwaited =>
      refine ⟨fun x => ?_, fun hnot => absurd trivial hnot⟩
      rw [← h.places x, ManagerThread.places, ManagerThread.places, hpoint]
      rfl
  | addConnectionPeer peer =>
      refine ⟨fun x => ?_, fun hnot => ?_⟩
      · have hx := h.places x
        simp only [ManagerThread.places, List.filterMap_append, List.filterMap_cons,
          List.filterMap_nil, Caller.peer, occurrences_append, occurrences_singleton] at hx ⊢
        split_ifs at hx ⊢ <;> omega
      · rw [h.counted hnot]
        simp [ManagerThread.counted, Caller.counted]
  | closePInfo pinfo => exact hother _ rfl rfl
  | destroy => exact hother _ rfl rfl
  | caller k caller t rest hcaller hcalled => exact h.called hcaller hcalled

/-! ## What is deleted -/

/-- Until the end the manager deletes inactive peers only. -/
structure Sparing (m : ManagerThread) : Prop where
  removed : m.finish = false → ∀ p ∈ m.removed, p.peer.isActive = false
  taken : m.finish = false → match m.point with
    | .remove _ p | .delete _ p => p.peer.isActive = false
    | _ => True
  cleaning : m.point.Cleaning → m.finish = true

theorem Sparing.of_removed (h : m.Sparing) (hfinish : t.finish = m.finish)
    (hremoved : t.removed = m.removed) (htaken : match t.point with
      | .remove _ _ | .delete _ _ => False
      | _ => True) (hcleaning : ¬t.point.Cleaning) : t.Sparing where
  removed hnot := by
    rw [hremoved]
    exact h.removed (hfinish ▸ hnot)
  taken _ := by
    split at htaken
    · exact htaken.elim
    · exact htaken.elim
    · trivial
  cleaning hclean := absurd hclean hcleaning

theorem Sparing.of_finish (hfinish : t.finish = true) : t.Sparing where
  removed hnot := by rw [hfinish] at hnot; cases hnot
  taken hnot := by rw [hfinish] at hnot; cases hnot
  cleaning _ := hfinish

theorem Sparing.advanced (h : m.Sparing) (hstep : m.Advanced t) : t.Sparing := by
  have hclean : ∀ {point : ManagerPoint}, m.point = point → point.Cleaning → m.finish = true :=
    fun hpoint hcleaning => h.cleaning (hpoint ▸ hcleaning)
  cases hstep with
  | finishes hpoint hfinish => exact .of_finish hfinish
  | behind place | offers place | registered place | checked place | checks place =>
      obtain ⟨kind, i⟩ := place
      cases kind <;> exact h.of_removed rfl rfl trivial id
  | drops place p hpoint hp hdrop =>
      refine ⟨h.removed, fun hnot => ?_, fun hcleaning => absurd hcleaning id⟩
      rcases hdrop with hfinish | hinactive
      · exact absurd (hfinish.symm.trans hnot) (by decide)
      · exact hinactive
  | removes place p hpoint =>
      have htaken := h.taken
      rw [hpoint] at htaken
      have hremoved := h.removed
      obtain ⟨kind, i⟩ := place
      cases kind <;> exact ⟨hremoved, htaken, fun hcleaning => absurd hcleaning id⟩
  | deletes place p hpoint =>
      have htaken := h.taken
      rw [hpoint] at htaken
      refine ⟨fun hnot q hq => ?_, fun _ => trivial, fun hcleaning => absurd hcleaning id⟩
      rcases List.mem_append.mp hq with hq | hq
      · exact h.removed hnot q hq
      · rw [List.mem_singleton.mp hq]
        exact htaken hnot
  | promotes i p changed => cases changed <;> exact h.of_removed rfl rfl trivial id
  | checksBad ret c hpoint hc =>
      by_cases hret : 0 ≤ ret
      · rw [if_pos hret]
        exact h.of_removed rfl rfl trivial id
      · rw [if_neg hret]
        exact h.of_removed rfl rfl trivial id
  | cleans kind p rest hpoint hpeers =>
      have hfinish := hclean hpoint trivial
      cases kind <;> exact .of_finish hfinish
  | cleaned kind hpoint hpeers => exact .of_finish (hclean hpoint trivial)
  | forgets pinfo rest hpoint hrequests => exact .of_finish (hclean hpoint trivial)
  | ends hpoint hrequests => exact .of_finish (hclean hpoint trivial)
  | _ => exact h.of_removed rfl rfl trivial id

theorem Sparing.stepped (h : m.Sparing) (hstep : m.Stepped op t) : t.Sparing := by
  cases hstep with
  | advance io t hstep => exact h.advanced hstep
  | select answer hpoint => cases answer <;> exact h.of_removed rfl rfl trivial id
  | waitfor hpoint hfinish hwaited => exact .of_finish hfinish
  | caller k caller t rest hcaller hcalled =>
      cases hcalled with
      | destroys => exact .of_finish rfl
      | _ => exact ⟨h.removed, h.taken, h.cleaning⟩
  | _ => exact ⟨h.removed, h.taken, h.cleaning⟩

/-! ## Runs -/

theorem Reachable.conserved (h : Reachable fd0 capacity m) (hfd : 0 < fd0) :
    m.Conserved ∧ m.Sparing := by
  have hall : m.Standing ∧ m.Conserved ∧ m.Sparing := by
    refine Reach.invariant (I := fun m : ManagerThread => m.Standing ∧ m.Conserved ∧ m.Sparing)
      ?_ (fun m op t hm _ hstep => ?_) h
    · rintro m rfl
      refine ⟨standing_create hfd capacity, ⟨fun x => ?_, fun _ => rfl⟩, ⟨fun _ p hp => ?_,
        fun _ => trivial, fun hcleaning => absurd hcleaning id⟩⟩
      · rfl
      · cases hp
    · have hstepped := stepped_perform hstep
      exact ⟨hm.1.stepped hstepped, hm.2.1.stepped hm.1.inPlace hstepped, hm.2.2.stepped hstepped⟩
  exact hall.2

namespace Sample

/-- A peer is added and closed, and the manager takes it off its list while a second one is being
added. -/
def closedPeer : List Op :=
  [.addConnectionPeer (.create (fun _ _ => 0) (some ⟨5, ⟨10, 0, 0, 1⟩, 1000⟩)
      (some ⟨6, ⟨10, 0, 0, 2⟩, 80⟩) true (some 1)),
    .caller 0, .caller 0, .caller 0, .closePInfo (some 1), .caller 0, .caller 0] ++
  List.replicate 12 (.advance .idle) ++
  [.addConnectionPeer (.create (fun _ _ => 0) (some ⟨7, ⟨10, 0, 0, 1⟩, 1001⟩)
      (some ⟨8, ⟨10, 0, 0, 2⟩, 80⟩) true (some 2)),
    .caller 0, .caller 0, .advance .idle]

end Sample

end ManagerThread

end Relb
