import Relb.Lib.Keyed
import Relb.Proofs.Accounts
import Relb.Proofs.PeerStages
/-!
# What a manager does to its peers

`Keeps` says what one iteration of a manager may do, as far as reports go: a peer stays,
with the reports that it has just posted added to its own, or it goes after an end or a
failure. A connecting peer may be neither closed on request nor dropped by a check
(`Spares`): both report an end, which no first report may be.
-/

namespace Relb

open Lib

open ConnectionPeer (Report report)

/-! ## Lists of reports -/

/-- A first report that is not an end, and then ends only. -/
def Lawful (l : List Report) : Prop :=
  l = [] ∨ ∃ first n, first ≠ Report.ended ∧ l = first :: List.replicate n .ended

def Concluded (l : List Report) : Prop := .failed ∈ l ∨ .ended ∈ l

/-- The phase of a connection after the reports `l`. -/
def phaseOf : List Report → Phase
  | [] => .connecting
  | [.established] => .established
  | _ => .ended

theorem Lawful.first_or_ended {l rest : List Report} {r : Report}
    (h : Lawful (l ++ r :: rest)) :
    l = [] ∧ r ≠ .ended ∨ l ≠ [] ∧ r = .ended := by
  rcases h with h | ⟨first, n, hfirst, h⟩
  · simp at h
  · cases l with
    | nil =>
        obtain ⟨rfl, -⟩ := List.cons.inj h
        exact .inl ⟨rfl, hfirst⟩
    | cons x l =>
        have hmem : r ∈ List.replicate n Report.ended := by
          rw [← (List.cons.inj h).2]
          exact List.mem_append_right _ List.mem_cons_self
        exact .inr ⟨List.cons_ne_nil _ _, List.eq_of_mem_replicate hmem⟩

theorem phaseOf_ne_connecting {l : List Report} (h : l ≠ []) : phaseOf l ≠ .connecting := by
  match l, h with
  | [.established], _ => decide
  | [.failed], _ => decide
  | [.ended], _ => decide
  | _ :: _ :: _, _ => simp [phaseOf]

theorem Lawful.ended_iff {l rest : List Report} {r : Report} (h : Lawful (l ++ r :: rest)) :
    r = .ended ↔ phaseOf l ≠ .connecting := by
  rcases h.first_or_ended with ⟨rfl, hr⟩ | ⟨hl, rfl⟩
  · simp [hr, phaseOf]
  · simp [phaseOf_ne_connecting hl]

theorem Lawful.phaseOf_append {l rest : List Report} {r : Report} (h : Lawful (l ++ r :: rest)) :
    phaseOf (l ++ [r]) = r.next := by
  rcases h.first_or_ended with ⟨rfl, hr⟩ | ⟨hl, rfl⟩
  · cases r with
    | established => rfl
    | failed => rfl
    | ended => exact absurd rfl hr
  · match l, hl with
    | [x], _ => cases x <;> rfl
    | x :: y :: l, _ => simp [phaseOf, Report.next]

theorem Lawful.phaseOf_of_concluded {l : List Report} (h : Lawful l) (hc : Concluded l) :
    phaseOf l = .ended := by
  rcases h with rfl | ⟨first, n, hfirst, rfl⟩
  · simp [Concluded] at hc
  · cases n with
    | zero =>
        cases first with
        | established => simp [Concluded] at hc
        | failed => rfl
        | ended => exact absurd rfl hfirst
    | succ n => simp [phaseOf, List.replicate_succ]

/-- The reports in a queue about the connection of an entry, in order. -/
def pending (queue : List Message) (a : Ptr) : List Report :=
  queue.filterMap fun msg => if msg.param = a then report msg.id else none

@[simp] theorem pending_nil (a : Ptr) : pending [] a = [] := rfl

@[simp] theorem pending_append (queue queue' : List Message) (a : Ptr) :
    pending (queue ++ queue') a = pending queue a ++ pending queue' a := by
  simp [pending]

theorem pending_cons (msg : Message) (queue : List Message) (a : Ptr) :
    pending (msg :: queue) a =
      (if msg.param = a then (report msg.id).toList else []) ++ pending queue a := by
  unfold pending
  rw [List.filterMap_cons]
  by_cases h : msg.param = a
  · simp only [if_pos h]
    cases report msg.id <;> rfl
  · simp [if_neg h]

theorem pending_map_self (ids : List UInt32) (a : Ptr) :
    pending (ids.map (⟨·, a⟩)) a = ids.filterMap report := by
  rw [pending, List.filterMap_map]
  congr 1
  funext id
  exact if_pos rfl

theorem pending_map_of_ne {a b : Ptr} (h : b ≠ a) (ids : List UInt32) :
    pending (ids.map (⟨·, b⟩)) a = [] := by
  rw [pending, List.filterMap_map, List.filterMap_eq_nil_iff]
  exact fun id _ => if_neg h

namespace ConnectionPeer

variable {p q : ConnectionPeer} {a : Ptr}

theorem newMessages_eq {new : List UInt32} (h : q.posted = p.posted ++ new)
    (ha : p.pinfo = some a) : p.newMessages q = new.map (⟨·, a⟩) := by
  simp only [newMessages, ha, h, List.drop_left]

theorem Extends.pending_newMessages (h : p.Extends q) (ha : p.pinfo = some a) :
    q.reports = p.reports ++ pending (p.newMessages q) a := by
  obtain ⟨new, hnew, -⟩ := h.posted
  rw [newMessages_eq hnew ha, pending_map_self, reports, hnew, List.filterMap_append]
  rfl

theorem newMessages_self : p.newMessages p = [] := by
  unfold newMessages
  split <;> simp

theorem pending_newMessages_of_ne (h : p.pinfo ≠ some a) : pending (p.newMessages q) a = [] := by
  cases hp : p.pinfo with
  | none => simp [newMessages, hp]
  | some b =>
      have hne : b ≠ a := fun heq => h (hp.trans (heq ▸ rfl))
      simp only [newMessages, hp]
      exact pending_map_of_ne hne _

theorem Extends.posted_newMessages (h : p.Extends q) :
    ∀ msg ∈ p.newMessages q, msg.id ∈ postedIds := by
  obtain ⟨new, hnew, hknown⟩ := h.posted
  intro msg hmsg
  cases hp : p.pinfo with
  | none => simp [newMessages, hp] at hmsg
  | some a =>
      rw [newMessages_eq hnew hp] at hmsg
      obtain ⟨id, hid, rfl⟩ := List.mem_map.mp hmsg
      exact hknown id hid

end ConnectionPeer

namespace ThreadedConnectionManager

variable {m t : ThreadedConnectionManager} {p q : ConnectionPeer} {msgs : List Message}
  {rest : List ConnectionPeer} {i : Nat}

def peers (m : ThreadedConnectionManager) : List ConnectionPeer :=
  m.peerList ++ m.connectingPeerList

/-- The peers of a manager are in the stage of their list, and each has its own entry. -/
structure Wellformed (m : ThreadedConnectionManager) : Prop where
  peerList : ∀ p ∈ m.peerList, p.Underway
  connectingPeerList : ∀ p ∈ m.connectingPeerList, p.Connecting ∨ p.Gone
  nodup : (m.peers.map ConnectionPeer.pinfo).Nodup

/-- No connecting peer is closed on request, and no check of one fails. -/
def Spares (m : ThreadedConnectionManager) : Op → Prop
  | .serveRequest => ∀ top, m.toBeClosed.getLast? = some top →
      ∀ p ∈ m.peers, p.pinfo = top → p.isActive = true → p.pServerConnected = true
  | .checkConnectingPeers i io => ∀ p, m.connectingPeerList[i]? = some p →
      ∀ e, ¬p.CheckFails e io
  | _ => True

/-- `m` becomes `t` and posts `msgs`. -/
structure Keeps (m t : ThreadedConnectionManager) (msgs : List Message) : Prop where
  posted : ∀ msg ∈ msgs, msg.id ∈ postedIds
  nodup : (t.peers.map ConnectionPeer.pinfo).Nodup
  origin : ∀ q ∈ t.peers, ∃ p ∈ m.peers, q.pinfo = p.pinfo ∧
    ∀ a, p.pinfo = some a → q.reports = p.reports ++ pending msgs a
  stays : ∀ p ∈ m.peers, (∃ q ∈ t.peers, q.pinfo = p.pinfo) ∨ Concluded p.reports ∧ msgs = []
  own : ∀ a, pending msgs a ≠ [] → ∃ q ∈ t.peers, q.pinfo = some a

namespace Keeps

theorem of_same (hdistinct : (m.peers.map ConnectionPeer.pinfo).Nodup)
    (ht : t.peers = m.peers) : m.Keeps t [] := by
  refine ⟨by simp, ht ▸ hdistinct, ?_, ?_, fun a ha => absurd rfl ha⟩
  · intro q hq
    exact ⟨q, ht ▸ hq, rfl, fun a _ => by simp⟩
  · intro p hp
    exact .inl ⟨p, ht ▸ hp, rfl⟩

/-- One peer is replaced by what it has become. -/
theorem of_exchange (hdistinct : (m.peers.map ConnectionPeer.pinfo).Nodup)
    (hm : m.peers.Perm (p :: rest)) (ht : t.peers.Perm (q :: rest)) (hq : p.Extends q) :
    m.Keeps t (p.newMessages q) := by
  have hnodup : ((p :: rest).map ConnectionPeer.pinfo).Nodup :=
    (hm.map ConnectionPeer.pinfo).nodup_iff.mp hdistinct
  have hne : ∀ x ∈ rest, x.pinfo ≠ p.pinfo := by
    intro x hx heq
    rw [List.map_cons, List.nodup_cons] at hnodup
    exact hnodup.1 (heq ▸ List.mem_map_of_mem hx)
  refine ⟨hq.posted_newMessages, ?_, ?_, ?_, ?_⟩
  · rw [(ht.map ConnectionPeer.pinfo).nodup_iff, List.map_cons, hq.pinfo]
    exact hnodup
  · intro x hx
    rcases List.mem_cons.mp (ht.mem_iff.mp hx) with rfl | hx
    · exact ⟨p, hm.mem_iff.mpr List.mem_cons_self, hq.pinfo, fun a ha =>
        hq.pending_newMessages ha⟩
    · refine ⟨x, hm.mem_iff.mpr (List.mem_cons_of_mem _ hx), rfl, fun a ha => ?_⟩
      rw [ConnectionPeer.pending_newMessages_of_ne (ha ▸ (hne x hx).symm), List.append_nil]
  · intro x hx
    rcases List.mem_cons.mp (hm.mem_iff.mp hx) with rfl | hx
    · exact .inl ⟨q, ht.mem_iff.mpr List.mem_cons_self, hq.pinfo⟩
    · exact .inl ⟨x, ht.mem_iff.mpr (List.mem_cons_of_mem _ hx), rfl⟩
  · intro a ha
    refine ⟨q, ht.mem_iff.mpr List.mem_cons_self, hq.pinfo.trans ?_⟩
    by_contra hp
    exact ha (ConnectionPeer.pending_newMessages_of_ne hp)

theorem of_remove (hdistinct : (m.peers.map ConnectionPeer.pinfo).Nodup)
    (hm : m.peers.Perm (p :: rest)) (ht : t.peers = rest) (hp : Concluded p.reports) :
    m.Keeps t [] := by
  refine ⟨by simp, ?_, ?_, ?_, fun a ha => absurd rfl ha⟩
  · have hnodup : ((p :: rest).map ConnectionPeer.pinfo).Nodup :=
      (hm.map ConnectionPeer.pinfo).nodup_iff.mp hdistinct
    rw [ht]
    exact (List.nodup_cons.mp hnodup).2
  · intro x hx
    rw [ht] at hx
    exact ⟨x, hm.mem_iff.mpr (List.mem_cons_of_mem _ hx), rfl, fun a _ => by simp⟩
  · intro x hx
    rcases List.mem_cons.mp (hm.mem_iff.mp hx) with rfl | hx
    · exact .inr ⟨hp, rfl⟩
    · exact .inl ⟨x, ht ▸ hx, rfl⟩

end Keeps

/-! ## Iterations -/

theorem peers_perm_peerList (h : m.peerList[i]? = some p) :
    m.peers.Perm (p :: (m.peerList.eraseIdx i ++ m.connectingPeerList)) :=
  (perm_cons_eraseIdx h).append_right _

theorem peers_perm_connectingPeerList (h : m.connectingPeerList[i]? = some p) :
    m.peers.Perm (p :: (m.peerList ++ m.connectingPeerList.eraseIdx i)) :=
  ((perm_cons_eraseIdx h).append_left _).trans List.perm_middle

theorem peers_perm_set (h : m.peerList[i]? = some p) (q : ConnectionPeer) :
    (peers { m with peerList := m.peerList.set i q }).Perm
      (q :: (m.peerList.eraseIdx i ++ m.connectingPeerList)) :=
  (List.set_perm_cons_eraseIdx (List.getElem?_eq_some_iff.mp h).1 q).append_right _

theorem peers_perm_setConnecting (h : m.connectingPeerList[i]? = some p) (q : ConnectionPeer) :
    (peers { m with connectingPeerList := m.connectingPeerList.set i q }).Perm
      (q :: (m.peerList ++ m.connectingPeerList.eraseIdx i)) :=
  ((List.set_perm_cons_eraseIdx (List.getElem?_eq_some_iff.mp h).1 q).append_left _).trans
    List.perm_middle

theorem peers_perm_promote (m : ThreadedConnectionManager) (q : ConnectionPeer) (i : Nat) :
    (peers { m with
      connectingPeerList := m.connectingPeerList.eraseIdx i
      peerList := m.peerList ++ [q] }).Perm
      (q :: (m.peerList ++ m.connectingPeerList.eraseIdx i)) := by
  change ((m.peerList ++ [q]) ++ m.connectingPeerList.eraseIdx i).Perm _
  rw [List.append_assoc]
  exact List.perm_middle

/-- What each iteration needs, and what it leaves. -/
inductive Iteration (m : ThreadedConnectionManager) :
    Op → ThreadedConnectionManager → List Message → Prop
  | serveRequest (top : Option Ptr) : m.toBeClosed.getLast? = some top →
      Iteration m .serveRequest
        ⟨m.peerList.map (·.closePInfo top), m.connectingPeerList.map (·.closePInfo top),
          m.toBeClosed.dropLast⟩
        (m.peers.flatMap fun p => p.newMessages (p.closePInfo top))
  | removePeer (i : Nat) (p : ConnectionPeer) : m.peerList[i]? = some p → p.isActive = false →
      Iteration m (.removePeer i) { m with peerList := m.peerList.eraseIdx i } []
  | removeConnectingPeer (i : Nat) (p : ConnectionPeer) : m.connectingPeerList[i]? = some p →
      p.isActive = false → Iteration m (.removeConnectingPeer i)
        { m with connectingPeerList := m.connectingPeerList.eraseIdx i } []
  | manageConnections (i : Nat) (setr setw : FdSet) (io : SocketIO) (p q : ConnectionPeer) :
      m.peerList[i]? = some p → p.manageConnections setr setw io = .ok q →
        Iteration m (.manageConnections i setr setw io)
          { m with peerList := m.peerList.set i q } (p.newMessages q)
  | promote (i : Nat) (setr setw : FdSet) (io : SocketIO) (p q : ConnectionPeer) :
      m.connectingPeerList[i]? = some p → p.manageConnectingPeer setr setw io = .ok (true, q) →
        Iteration m (.manageConnectingPeer i setr setw io) { m with
          connectingPeerList := m.connectingPeerList.eraseIdx i
          peerList := m.peerList ++ [q] } (p.newMessages q)
  | manageConnectingPeer (i : Nat) (setr setw : FdSet) (io : SocketIO) (p q : ConnectionPeer) :
      m.connectingPeerList[i]? = some p → p.manageConnectingPeer setr setw io = .ok (false, q) →
        Iteration m (.manageConnectingPeer i setr setw io)
          { m with connectingPeerList := m.connectingPeerList.set i q } (p.newMessages q)
  | checkConnectingPeers (i : Nat) (io : SocketIO) (p : ConnectionPeer) :
      m.connectingPeerList[i]? = some p → Iteration m (.checkConnectingPeers i io)
        { m with connectingPeerList := m.connectingPeerList.set i (p.checkConnectingPeers io) }
        (p.newMessages (p.checkConnectingPeers io))
  | checkPeers (i : Nat) (io : SocketIO) (p : ConnectionPeer) : m.peerList[i]? = some p →
      Iteration m (.checkPeers i io)
        { m with peerList := m.peerList.set i (p.checkPeers io) } (p.newMessages (p.checkPeers io))

section Functions

variable {i : Nat} {setr setw : FdSet} {io : SocketIO}

theorem iteration_serveRequest (hop : m.serveRequest = some (t, msgs)) :
    m.Iteration .serveRequest t msgs := by
  unfold serveRequest at hop
  split at hop
  · cases hop
  · rename_i top htop
    obtain ⟨rfl, rfl⟩ := Prod.mk.inj (Option.some.inj hop)
    exact .serveRequest top htop

theorem iteration_removePeer (hop : m.removePeer i = some (t, msgs)) :
    m.Iteration (.removePeer i) t msgs := by
  unfold removePeer at hop
  cases hp : m.peerList[i]? with
  | none => simp [hp] at hop
  | some p =>
      cases hactive : p.isActive with
      | true => simp [hp, hactive] at hop
      | false =>
          simp only [hp, hactive] at hop
          obtain ⟨rfl, rfl⟩ := Prod.mk.inj (Option.some.inj hop)
          exact .removePeer i p hp hactive

theorem iteration_removeConnectingPeer (hop : m.removeConnectingPeer i = some (t, msgs)) :
    m.Iteration (.removeConnectingPeer i) t msgs := by
  unfold removeConnectingPeer at hop
  cases hp : m.connectingPeerList[i]? with
  | none => simp [hp] at hop
  | some p =>
      cases hactive : p.isActive with
      | true => simp [hp, hactive] at hop
      | false =>
          simp only [hp, hactive] at hop
          obtain ⟨rfl, rfl⟩ := Prod.mk.inj (Option.some.inj hop)
          exact .removeConnectingPeer i p hp hactive

theorem iteration_manageConnections (hop : m.manageConnections i setr setw io = some (t, msgs)) :
    m.Iteration (.manageConnections i setr setw io) t msgs := by
  unfold manageConnections at hop
  cases hp : m.peerList[i]? with
  | none => simp [hp] at hop
  | some p =>
      cases hq : p.manageConnections setr setw io with
      | error q => simp [hp, hq] at hop
      | ok q =>
          simp only [hp, hq] at hop
          obtain ⟨rfl, rfl⟩ := Prod.mk.inj (Option.some.inj hop)
          exact .manageConnections i setr setw io p q hp hq

theorem iteration_manageConnectingPeer
    (hop : m.manageConnectingPeer i setr setw io = some (t, msgs)) :
    m.Iteration (.manageConnectingPeer i setr setw io) t msgs := by
  unfold manageConnectingPeer at hop
  cases hp : m.connectingPeerList[i]? with
  | none => simp [hp] at hop
  | some p =>
      cases hr : p.manageConnectingPeer setr setw io with
      | error q => simp [hp, hr] at hop
      | ok r =>
          obtain ⟨ret, q⟩ := r
          simp only [hp, hr] at hop
          cases ret with
          | true =>
              obtain ⟨rfl, rfl⟩ := Prod.mk.inj (Option.some.inj hop)
              exact .promote i setr setw io p q hp hr
          | false =>
              obtain ⟨rfl, rfl⟩ := Prod.mk.inj (Option.some.inj hop)
              exact .manageConnectingPeer i setr setw io p q hp hr

theorem iteration_checkConnectingPeers (hop : m.checkConnectingPeers i io = some (t, msgs)) :
    m.Iteration (.checkConnectingPeers i io) t msgs := by
  unfold checkConnectingPeers at hop
  cases hp : m.connectingPeerList[i]? with
  | none => simp [hp] at hop
  | some p =>
      simp only [hp] at hop
      obtain ⟨rfl, rfl⟩ := Prod.mk.inj (Option.some.inj hop)
      exact .checkConnectingPeers i io p hp

theorem iteration_checkPeers (hop : m.checkPeers i io = some (t, msgs)) :
    m.Iteration (.checkPeers i io) t msgs := by
  unfold checkPeers at hop
  cases hp : m.peerList[i]? with
  | none => simp [hp] at hop
  | some p =>
      simp only [hp] at hop
      obtain ⟨rfl, rfl⟩ := Prod.mk.inj (Option.some.inj hop)
      exact .checkPeers i io p hp

end Functions

theorem iteration_perform {op : Op} (hop : m.perform op = some (t, msgs)) :
    m.Iteration op t msgs := by
  cases op with
  | serveRequest => exact iteration_serveRequest hop
  | removePeer i => exact iteration_removePeer hop
  | removeConnectingPeer i => exact iteration_removeConnectingPeer hop
  | manageConnections i setr setw io => exact iteration_manageConnections hop
  | manageConnectingPeer i setr setw io => exact iteration_manageConnectingPeer hop
  | checkConnectingPeers i io => exact iteration_checkConnectingPeers hop
  | checkPeers i io => exact iteration_checkPeers hop

/-- As far as the peers of both lists go: one peer runs an operation, an inactive one is removed,
or the request on top is passed to all. -/
inductive Iterated (m t : ThreadedConnectionManager) (msgs : List Message) : Prop
  | one (p q : ConnectionPeer) (rest : List ConnectionPeer) (op : ConnectionPeer.Op) :
      p.perform op = .ok q → m.peers.Perm (p :: rest) → t.peers.Perm (q :: rest) →
        msgs = p.newMessages q → t.toBeClosed = m.toBeClosed → Iterated m t msgs
  | removed (p : ConnectionPeer) (rest : List ConnectionPeer) :
      p.isActive = false → m.peers.Perm (p :: rest) → t.peers = rest → msgs = [] →
        t.toBeClosed = m.toBeClosed → Iterated m t msgs
  | served (top : Option Ptr) : m.toBeClosed.getLast? = some top →
      t.peers = m.peers.map (·.closePInfo top) →
        msgs = m.peers.flatMap (fun p => p.newMessages (p.closePInfo top)) →
          t.toBeClosed = m.toBeClosed.dropLast → Iterated m t msgs

theorem iterated_perform {op : Op} (hop : m.perform op = some (t, msgs)) : m.Iterated t msgs := by
  have hconnecting : ∀ {p q : ConnectionPeer} {ret setr setw io},
      p.manageConnectingPeer setr setw io = .ok (ret, q) →
        p.perform (.manageConnectingPeer setr setw io) = .ok q := by
    intro p q ret setr setw io hr
    rw [ConnectionPeer.perform, hr]
    rfl
  cases iteration_perform hop with
  | serveRequest top htop => exact .served top htop List.map_append.symm rfl rfl
  | removePeer i p hp hactive =>
      exact .removed p _ hactive (peers_perm_peerList hp) rfl rfl rfl
  | removeConnectingPeer i p hp hactive =>
      exact .removed p _ hactive (peers_perm_connectingPeerList hp) rfl rfl rfl
  | manageConnections i setr setw io p q hp hq =>
      exact .one p q _ (.manageConnections setr setw io) hq (peers_perm_peerList hp)
        (peers_perm_set hp q) rfl rfl
  | promote i setr setw io p q hp hr =>
      exact .one p q _ _ (hconnecting hr) (peers_perm_connectingPeerList hp)
        (peers_perm_promote m q i) rfl rfl
  | manageConnectingPeer i setr setw io p q hp hr =>
      exact .one p q _ _ (hconnecting hr) (peers_perm_connectingPeerList hp)
        (peers_perm_setConnecting hp q) rfl rfl
  | checkConnectingPeers i io p hp =>
      exact .one p _ _ (.checkConnectingPeers io) rfl (peers_perm_connectingPeerList hp)
        (peers_perm_setConnecting hp _) rfl rfl
  | checkPeers i io p hp =>
      exact .one p _ _ (.checkPeers io) rfl (peers_perm_peerList hp) (peers_perm_set hp _) rfl rfl

/-- Only a peer that has reported an end or a failure is removed. -/
theorem Iterated.keeps (h : m.Iterated t msgs)
    (hdistinct : (m.peers.map ConnectionPeer.pinfo).Nodup)
    (hconcluded : ∀ p ∈ m.peers, p.isActive = false → Concluded p.reports) : m.Keeps t msgs := by
  cases h with
  | one p q rest op hpq hm ht hmsgs =>
      have hext := p.extends_perform op
      rw [hpq] at hext
      exact hmsgs ▸ .of_exchange hdistinct hm ht hext
  | removed p rest hactive hm ht hmsgs =>
      exact hmsgs ▸ .of_remove hdistinct hm ht
        (hconcluded p (hm.mem_iff.mpr List.mem_cons_self) hactive)
  | served top htop ht hmsgs =>
      have hother : ∀ p : ConnectionPeer, p.pinfo ≠ top → p.closePInfo top = p :=
        fun p hne => ConnectionPeer.closePInfo_other hne
      rw [hmsgs]
      by_cases hfound : ∃ p ∈ m.peers, p.pinfo = top
      · obtain ⟨p, hp, rfl⟩ := hfound
        obtain ⟨n, hn⟩ := List.mem_iff_getElem?.mp hp
        have hlt := (List.getElem?_eq_some_iff.mp hn).1
        rw [map_eq_set (g := id) hdistinct hn fun x _ hx => hother x hx, List.map_id] at ht
        have hsent : m.peers.flatMap (fun x => x.newMessages (x.closePInfo p.pinfo)) =
            p.newMessages (p.closePInfo p.pinfo) :=
          flatMap_eq hdistinct hn fun x _ hx => by
            rw [hother x hx, ConnectionPeer.newMessages_self]
        rw [hsent]
        exact .of_exchange hdistinct (perm_cons_eraseIdx hn)
          (ht ▸ List.set_perm_cons_eraseIdx hlt _) (p.extends_perform (.closePInfo p.pinfo))
      · have hnone : ∀ p ∈ m.peers, p.pinfo ≠ top := fun p hp heq => hfound ⟨p, hp, heq⟩
        have hsent : m.peers.flatMap (fun x => x.newMessages (x.closePInfo top)) = [] := by
          rw [List.flatMap_eq_nil_iff]
          intro x hx
          rw [hother x (hnone x hx), ConnectionPeer.newMessages_self]
        rw [hsent]
        refine .of_same hdistinct (ht.trans ?_)
        rw [List.map_congr_left fun x hx => hother x (hnone x hx), List.map_id']

/-! ## Stages -/

/-- A stage that no operation leaves and in which nothing is established any more. -/
structure Final (D : ConnectionPeer → Prop) : Prop where
  refused : ∀ p : ConnectionPeer, p.Refused → D p
  closed : ∀ p : ConnectionPeer, D p → ∀ d, p.socket d = none
  closePInfo : ∀ p : ConnectionPeer, D p → D (p.closePInfo p.pinfo)
  reports : ∀ p : ConnectionPeer, D p → ∃ first, first ≠ .established ∧ p.ReportsFrom first

theorem final_gone : Final ConnectionPeer.Gone where
  refused _ h := h.gone
  closed _ h := h.closed
  closePInfo _ h := h.closePInfo
  reports _ h := ⟨_, by decide, h.reports⟩

theorem final_departed : Final ConnectionPeer.Departed where
  refused _ h := ⟨h.attached, h.closed, _, by decide, h.gone.reports⟩
  closed _ h := h.closed
  closePInfo _ h := h.closePInfo
  reports _ h := h.reports

/-- The peers of the first list are under way, and a connecting one that is not any more has come
to the stage `D`. -/
structure Staged (D : ConnectionPeer → Prop) (m : ThreadedConnectionManager) : Prop where
  peerList : ∀ p ∈ m.peerList, p.Underway
  connectingPeerList : ∀ p ∈ m.connectingPeerList, p.Connecting ∨ D p

/-- A connecting peer that is closed on request, or whose check fails, comes to the stage `D`. -/
def DropsTo (D : ConnectionPeer → Prop) (m : ThreadedConnectionManager) : Op → Prop
  | .serveRequest => ∀ top, m.toBeClosed.getLast? = some top →
      ∀ p ∈ m.connectingPeerList, p.pinfo = top → p.Connecting → D (p.closePInfo p.pinfo)
  | .checkConnectingPeers i io => ∀ p, m.connectingPeerList[i]? = some p → p.Connecting →
      (∃ e, p.CheckFails e io) → D (p.checkConnectingPeers io)
  | _ => True

theorem dropsTo_departed (m : ThreadedConnectionManager) (op : Op) :
    m.DropsTo ConnectionPeer.Departed op := by
  cases op with
  | serveRequest => exact fun _ _ p _ _ hp => hp.closePInfo
  | checkConnectingPeers i io => exact fun p _ hp hf => hp.departed_checkPeers hf
  | _ => trivial

theorem Spares.dropsTo {op : Op} (h : m.Spares op) (D : ConnectionPeer → Prop) :
    m.DropsTo D op := by
  cases op with
  | serveRequest =>
      intro top htop p hp hpinfo hc
      have hactive : p.isActive = true := by
        simp [ConnectionPeer.isActive, ConnectionPeer.pClient_eq, hc.opened .client]
      have hconnected := h top htop p (List.mem_append_right _ hp) hpinfo hactive
      rw [hc.notConnected] at hconnected
      cases hconnected
  | checkConnectingPeers i io =>
      rintro p hp - ⟨e, hf⟩
      exact absurd hf (h p hp e)
  | _ => trivial

namespace Staged

variable {D : ConnectionPeer → Prop}

theorem set (h : m.Staged D) (hq : q.Underway) :
    Staged D { m with peerList := m.peerList.set i q } := by
  refine ⟨fun x hx => ?_, h.connectingPeerList⟩
  rcases List.mem_or_eq_of_mem_set hx with hx | rfl
  · exact h.peerList x hx
  · exact hq

theorem setConnecting (h : m.Staged D) (hq : q.Connecting ∨ D q) :
    Staged D { m with connectingPeerList := m.connectingPeerList.set i q } := by
  refine ⟨h.peerList, fun x hx => ?_⟩
  rcases List.mem_or_eq_of_mem_set hx with hx | rfl
  · exact h.connectingPeerList x hx
  · exact hq

theorem promote (h : m.Staged D) (hq : q.Underway) :
    Staged D { m with
      connectingPeerList := m.connectingPeerList.eraseIdx i
      peerList := m.peerList ++ [q] } := by
  refine ⟨fun x hx => ?_, fun x hx => h.connectingPeerList x (List.mem_of_mem_eraseIdx hx)⟩
  rcases List.mem_append.mp hx with hx | hx
  · exact h.peerList x hx
  · rw [List.mem_singleton.mp hx]
    exact hq

theorem manageConnectingPeer (hD : Final D) (h : m.Staged D) {setr setw : FdSet} {io : SocketIO}
    (hp : m.connectingPeerList[i]? = some p) {r : Bool × ConnectionPeer}
    (hr : p.manageConnectingPeer setr setw io = .ok r) :
    r.1 = false ∧ (r.2.Connecting ∨ D r.2) ∨ r.1 = true ∧ r.2.Underway := by
  rcases h.connectingPeerList p (List.mem_of_getElem? hp) with hc | hg
  · obtain ⟨r', hr', hstage⟩ := hc.manageConnectingPeer setr setw io
    obtain rfl := Except.ok.inj (hr.symm.trans hr')
    rcases hstage with ⟨hret, hc | hrefused⟩ | ⟨hret, hest⟩
    · exact .inl ⟨hret, .inl hc⟩
    · exact .inl ⟨hret, .inr (hD.refused _ hrefused)⟩
    · exact .inr ⟨hret, hest.underway⟩
  · rw [ConnectionPeer.manageConnectingPeer_of_closed (hD.closed p hg)] at hr
    obtain rfl := Except.ok.inj hr
    exact .inl ⟨rfl, .inr hg⟩

theorem checkConnectingPeers (hD : Final D) (h : m.Staged D) {io : SocketIO}
    (hdrops : m.DropsTo D (.checkConnectingPeers i io)) (hp : m.connectingPeerList[i]? = some p) :
    (p.checkConnectingPeers io).Connecting ∨ D (p.checkConnectingPeers io) := by
  rcases h.connectingPeerList p (List.mem_of_getElem? hp) with hc | hg
  · by_cases hf : ∃ e, p.CheckFails e io
    · exact .inr (hdrops p hp hc hf)
    · exact .inl (hc.checkPeers fun e he => hf ⟨e, he⟩)
  · have hsame : p.checkConnectingPeers io = p :=
      ConnectionPeer.checkPeers_of_closed (hD.closed p hg)
    rw [hsame]
    exact .inr hg

theorem serveRequest (hD : Final D) (h : m.Staged D) (hdrops : m.DropsTo D .serveRequest)
    {top : Option Ptr} (htop : m.toBeClosed.getLast? = some top) :
    Staged D ⟨m.peerList.map (·.closePInfo top), m.connectingPeerList.map (·.closePInfo top),
      m.toBeClosed.dropLast⟩ := by
  refine ⟨fun x hx => ?_, fun x hx => ?_⟩
  · obtain ⟨p, hp, rfl⟩ := List.mem_map.mp hx
    by_cases hpinfo : p.pinfo = top
    · rw [← hpinfo]
      exact (h.peerList p hp).closePInfo
    · rw [ConnectionPeer.closePInfo_other hpinfo]
      exact h.peerList p hp
  · obtain ⟨p, hp, rfl⟩ := List.mem_map.mp hx
    by_cases hpinfo : p.pinfo = top
    · subst hpinfo
      rcases h.connectingPeerList p hp with hc | hg
      · exact .inr (hdrops _ htop p hp rfl hc)
      · exact .inr (hD.closePInfo p hg)
    · rw [ConnectionPeer.closePInfo_other hpinfo]
      exact h.connectingPeerList p hp

theorem perform (hD : Final D) (h : m.Staged D) {op : Op} (hdrops : m.DropsTo D op)
    (hop : m.perform op = some (t, msgs)) : t.Staged D := by
  cases iteration_perform hop with
  | serveRequest top htop => exact h.serveRequest hD hdrops htop
  | removePeer i p hp hactive =>
      exact ⟨fun x hx => h.peerList x (List.mem_of_mem_eraseIdx hx), h.connectingPeerList⟩
  | removeConnectingPeer i p hp hactive =>
      exact ⟨h.peerList, fun x hx => h.connectingPeerList x (List.mem_of_mem_eraseIdx hx)⟩
  | manageConnections i setr setw io p q hp hq =>
      have hunderway : Always ConnectionPeer.Underway (p.manageConnections setr setw io) :=
        ConnectionPeer.keptByCalls_underway.manageConnections
          (h.peerList p (List.mem_of_getElem? hp))
      rw [hq] at hunderway
      exact h.set hunderway
  | promote i setr setw io p q hp hr =>
      rcases h.manageConnectingPeer hD hp hr with ⟨hret, -⟩ | ⟨-, hunderway⟩
      · cases hret
      · exact h.promote hunderway
  | manageConnectingPeer i setr setw io p q hp hr =>
      rcases h.manageConnectingPeer hD hp hr with ⟨-, hstage⟩ | ⟨hret, -⟩
      · exact h.setConnecting hstage
      · cases hret
  | checkConnectingPeers i io p hp =>
      exact h.setConnecting (h.checkConnectingPeers hD hdrops hp)
  | checkPeers i io p hp =>
      exact h.set (ConnectionPeer.keptByCalls_underway.checkPeers
        (h.peerList p (List.mem_of_getElem? hp)))

theorem reports (hD : Final D) (h : m.Staged D) (hp : p ∈ m.peers) :
    p.reports = [] ∨ ∃ first, p.ReportsFrom first := by
  rcases List.mem_append.mp hp with hp | hp
  · exact .inr ⟨_, (h.peerList p hp).reports⟩
  · rcases h.connectingPeerList p hp with hc | hg
    · exact .inl hc.reports
    · obtain ⟨first, -, hreports⟩ := hD.reports p hg
      exact .inr ⟨first, hreports⟩

theorem concluded (hD : Final D) (h : m.Staged D) (hp : p ∈ m.peers)
    (hinactive : p.isActive = false) : Concluded p.reports := by
  have hclosed := p.isActive_eq_false.mp hinactive .client
  rcases List.mem_append.mp hp with hp | hp
  · exact (h.peerList p hp).accounted.reported hclosed
  · rcases h.connectingPeerList p hp with hc | hg
    · have hopen := hc.opened .client
      rw [hclosed] at hopen
      cases hopen
    · obtain ⟨first, hfirst, n, hn⟩ := hD.reports p hg
      rw [hn]
      cases first with
      | established => exact absurd rfl hfirst
      | failed => exact .inl List.mem_cons_self
      | ended => exact .inr List.mem_cons_self

end Staged

theorem Wellformed.staged (h : m.Wellformed) : m.Staged ConnectionPeer.Gone :=
  ⟨h.peerList, h.connectingPeerList⟩

theorem Wellformed.lawful (h : m.Wellformed) (hp : p ∈ m.peers) : Lawful p.reports := by
  rcases List.mem_append.mp hp with hp | hp
  · obtain ⟨n, hn⟩ := (h.peerList p hp).reports
    exact .inr ⟨_, n, by decide, hn⟩
  · rcases h.connectingPeerList p hp with hc | hg
    · exact .inl hc.reports
    · obtain ⟨n, hn⟩ := hg.reports
      exact .inr ⟨_, n, by decide, hn⟩

theorem keeps_perform (h : m.Wellformed) {op : Op} (hspares : m.Spares op)
    (hop : m.perform op = some (t, msgs)) : m.Keeps t msgs ∧ t.Wellformed := by
  have hkeeps := (iterated_perform hop).keeps h.nodup fun p hp hinactive =>
    h.staged.concluded final_gone hp hinactive
  have hstaged := h.staged.perform final_gone (hspares.dropsTo _) hop
  exact ⟨hkeeps, hstaged.peerList, hstaged.connectingPeerList, hkeeps.nodup⟩

/-! ## Entries -/

theorem pinfos_exchange (hm : m.peers.Perm (p :: rest)) (ht : t.peers.Perm (q :: rest))
    (hq : p.Extends q) :
    (t.peers.map ConnectionPeer.pinfo).Subperm (m.peers.map ConnectionPeer.pinfo) := by
  have hsame : ((q :: rest).map ConnectionPeer.pinfo) = (p :: rest).map ConnectionPeer.pinfo := by
    rw [List.map_cons, List.map_cons, hq.pinfo]
  exact ((ht.map _).trans (hsame ▸ (hm.map _).symm)).subperm

theorem pinfos_perform {op : Op} (hop : m.perform op = some (t, msgs)) :
    (t.peers.map ConnectionPeer.pinfo).Subperm (m.peers.map ConnectionPeer.pinfo) := by
  cases iterated_perform hop with
  | one p q rest op hpq hm ht =>
      have hext := p.extends_perform op
      rw [hpq] at hext
      exact pinfos_exchange hm ht hext
  | removed p rest _ hm ht =>
      rw [ht]
      exact ((List.sublist_cons_self p rest).map _).subperm.trans (hm.map _).symm.subperm
  | served top _ ht =>
      have hsame : ∀ p : ConnectionPeer, (p.closePInfo top).pinfo = p.pinfo :=
        fun p => (p.extends_perform (.closePInfo top)).pinfo
      refine (List.Perm.of_eq ?_).subperm
      rw [ht, List.map_map]
      exact List.map_congr_left fun p _ => hsame p

end ThreadedConnectionManager

end Relb
