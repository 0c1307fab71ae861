import Relb.Lib.Keyed
import Relb.Lib.Wakeup
import Relb.Proofs.ManagerPlaces
import Relb.Proofs.NullAccess
/-!
# No wake-up is lost

Close requests, new peers and the end come from other threads while a manager goes round. Each of
them leaves what it brings first and a byte in the pipe behind it; the manager looks at them one
after the other, sleeps in `select`, and takes one byte. So these threads are a mailbox of three
kinds of items.
-/

namespace Relb

open Lib

/-- What other threads leave for a manager. -/
inductive ManagerItem
  | finish
  | request
  | peer
  deriving DecidableEq

instance : Fintype ManagerItem where
  elems := {.finish, .request, .peer}
  complete item := by cases item <;> decide

theorem sum_managerItem (f : ManagerItem → Nat) :
    ∑ item, f item = f .finish + f .request + f .peer := by
  rw [show (Finset.univ : Finset ManagerItem) = {.finish, .request, .peer} by decide,
    Finset.sum_insert (by decide), Finset.sum_insert (by decide), Finset.sum_singleton,
    Nat.add_assoc]

/-- What the thread has looked at since it took a byte. -/
def ManagerPoint.looked : ManagerPoint → ManagerItem → Bool
  | .purge .ended, item => item ≠ .peer
  | .purge _, item => item = .finish
  | .registerTest _, item | .register _, item | .remove _ _, item | .delete _ _, item =>
      item ≠ .peer
  | .beforeSelect, _ | .select, _ | .badDescriptor, _ => true
  | _, _ => false

/-- In front of `control_socket.post()`. -/
def Caller.posts : Caller → Bool
  | .post => true
  | _ => false

namespace ManagerThread

variable {m t : ManagerThread} {b : Mailbox ManagerItem} {op : Op} {fd0 : Int} {capacity : Nat}

/-- What has come in behind the point at which the thread has looked for it. -/
def missed (m : ManagerThread) : ManagerItem → Nat
  | .finish => if m.finish then 1 else 0
  | .request => m.toBeClosed.length
  | .peer => m.connectingPeerList.length - m.connectingPeers

def mailbox (m : ManagerThread) : Mailbox ManagerItem :=
  .of m.point.looked m.missed m.controlSocket.bytes (m.callers.countP Caller.posts)

/-! ## Steps of the mailbox -/

theorem mailbox_skip
    (hlooked : ∀ item, t.point.looked item = true →
      m.point.looked item = true ∧ t.missed item ≤ m.missed item)
    (hsocket : t.controlSocket = m.controlSocket)
    (hcallers : t.callers.countP Caller.posts = m.callers.countP Caller.posts) :
    m.mailbox.Follows t.mailbox := by
  rw [mailbox, mailbox, hsocket, hcallers]
  exact Mailbox.follows_skip hlooked

theorem mailbox_again (hlooked : ∀ item, t.point.looked item = false)
    (hsocket : t.controlSocket = m.controlSocket) (hcallers : t.callers = m.callers) :
    m.mailbox.Follows t.mailbox := by
  rw [mailbox, mailbox, hsocket, hcallers]
  exact Mailbox.follows_again hlooked

theorem mailbox_look (item : ManagerItem) (hmissed : t.missed item = 0)
    (hlooked : ∀ x, t.point.looked x = true →
      x = item ∨ m.point.looked x = true ∧ t.missed x ≤ m.missed x)
    (hsocket : t.controlSocket = m.controlSocket) (hcallers : t.callers = m.callers) :
    m.mailbox.Follows t.mailbox := by
  rw [mailbox, mailbox, hsocket, hcallers]
  exact Mailbox.follows_look item hmissed hlooked

theorem checkSocket_cases {c c' : ControlSocket} {set : FdSet} {ret : Int}
    (h : c.checkSocket set = some (ret, c')) :
    c' = c ∧ ret ≤ 0 ∨ ret = 1 ∧ 0 < c.bytes ∧ c' = { c with bytes := c.bytes - 1 } := by
  unfold ControlSocket.checkSocket at h
  split_ifs at h
  · obtain ⟨rfl, rfl⟩ := Prod.mk.inj (Option.some.inj h)
    exact .inl ⟨rfl, by decide⟩
  · rename_i hbytes
    obtain ⟨rfl, rfl⟩ := Prod.mk.inj (Option.some.inj h)
    exact .inr ⟨rfl, hbytes, rfl⟩
  · obtain ⟨rfl, rfl⟩ := Prod.mk.inj (Option.some.inj h)
    exact .inl ⟨rfl, by decide⟩

theorem mailbox_checkSocket {ret : Int} {c : ControlSocket}
    (hlooked : ∀ item, t.point.looked item = false)
    (hc : m.controlSocket.checkSocket m.sets.setr = some (ret, c))
    (hsocket : t.controlSocket = c) (hcallers : t.callers = m.callers) :
    m.mailbox.Follows t.mailbox := by
  obtain ⟨hsame, -⟩ | ⟨-, hbytes, htaken⟩ := checkSocket_cases hc
  · exact mailbox_again hlooked (hsocket.trans hsame) hcallers
  · have htokens : m.controlSocket.bytes = t.controlSocket.bytes + 1 := by
      rw [hsocket, htaken]
      exact (Nat.sub_add_cancel hbytes).symm
    rw [mailbox, mailbox, htokens, hcallers]
    exact Mailbox.follows_take hlooked

theorem looked_behindCheck (kind : PeerKind) (item : ManagerItem) :
    (behindCheck kind).looked item = false := by
  cases kind <;> rfl

theorem looked_behindCleanup (kind : PeerKind) (item : ManagerItem) :
    (behindCleanup kind).looked item = false := by
  cases kind <;> rfl

theorem looked_behind (kind : PeerKind) (item : ManagerItem) :
    (ManagerPoint.purge (CloseRequests.behind kind)).looked item = decide (item = .finish) := by
  cases kind <;> rfl

theorem mailbox_purge {point : ClosePoint} (hpoint : m.point = .purge point)
    (hm : (ManagerPoint.purge point).looked .finish = true)
    (ht : ∀ item, t.point.looked item = decide (item = .finish))
    (hfinish : t.finish = m.finish) (hsocket : t.controlSocket = m.controlSocket)
    (hcallers : t.callers = m.callers) : m.mailbox.Follows t.mailbox := by
  refine mailbox_skip (fun item hitem => ?_) hsocket (by rw [hcallers])
  rw [ht item] at hitem
  obtain rfl := of_decide_eq_true hitem
  rw [hpoint, missed, missed, hfinish]
  exact ⟨hm, Nat.le_refl _⟩

/-- Between the loop over the close requests and `select`, what is on the lists does not matter
for the items that have been looked at. -/
theorem mailbox_registering (hm : ∀ item, m.point.looked item = decide (item ≠ .peer))
    (ht : ∀ item, t.point.looked item = decide (item ≠ .peer)) (hfinish : t.finish = m.finish)
    (hrequests : t.toBeClosed = m.toBeClosed) (hsocket : t.controlSocket = m.controlSocket)
    (hcallers : t.callers = m.callers) : m.mailbox.Follows t.mailbox := by
  refine mailbox_skip (fun item hitem => ?_) hsocket (by rw [hcallers])
  rw [ht item] at hitem
  refine ⟨(hm item).trans hitem, ?_⟩
  cases item with
  | finish => rw [missed, missed, hfinish]
  | request => rw [missed, missed, hrequests]
  | peer => cases hitem

theorem mailbox_registered {place : PeerPlace} (hpoint : m.point = .registerTest place)
    (hlast : (m.peers place.kind).length ≤ place.index) :
    m.mailbox.Follows (m.registered place).mailbox := by
  obtain ⟨kind, i⟩ := place
  cases kind with
  | connected =>
      refine mailbox_registering (fun item => ?_) (fun _ => rfl) rfl rfl rfl rfl
      rw [hpoint]
      rfl
  | connecting =>
      refine mailbox_look .peer (Nat.sub_eq_zero_of_le hlast) (fun item _ => ?_) rfl rfl
      rw [hpoint]
      cases item with
      | finish => exact .inr ⟨rfl, Nat.le_refl _⟩
      | request => exact .inr ⟨rfl, Nat.le_refl _⟩
      | peer => exact .inl rfl

theorem mailbox_select (hpoint : ∀ item, m.point.looked item = true)
    (hfinish : t.finish = m.finish) (hrequests : t.toBeClosed = m.toBeClosed)
    (hpeers : t.connectingPeerList = m.connectingPeerList)
    (hcount : t.connectingPeers = m.connectingPeers) (hsocket : t.controlSocket = m.controlSocket)
    (hcallers : t.callers = m.callers) : m.mailbox.Follows t.mailbox := by
  refine mailbox_skip (fun item _ => ⟨hpoint item, ?_⟩) hsocket (by rw [hcallers])
  cases item with
  | finish => rw [missed, missed, hfinish]
  | request => rw [missed, missed, hrequests]
  | peer => rw [missed, missed, hpeers, hcount]

theorem mailbox_advanced (h : m.Advanced t) : m.mailbox.Follows t.mailbox := by
  cases h with
  | finishes hpoint hfinish => exact mailbox_again (fun _ => rfl) rfl rfl
  | begins hpoint hfinish =>
      refine mailbox_look .finish ?_ (fun item hitem => .inl (of_decide_eq_true hitem)) rfl rfl
      simp [missed, goto, hfinish]
  | scans hpoint hrequests => exact mailbox_purge hpoint rfl (fun _ => rfl) rfl rfl rfl
  | purged hpoint hrequests =>
      refine mailbox_look .request (by simp [missed, goto, hrequests]) (fun item hitem => ?_) rfl
        rfl
      rw [hpoint]
      cases item with
      | finish => exact .inr ⟨rfl, Nat.le_refl _⟩
      | request => exact .inl rfl
      | peer => cases hitem
  | tops place top hpoint hlt htop => exact mailbox_purge hpoint rfl (fun _ => rfl) rfl rfl rfl
  | behind place hpoint hle =>
      exact mailbox_purge hpoint rfl (looked_behind place.kind) rfl rfl rfl
  | offers place height top p hpoint hp =>
      obtain ⟨kind, i⟩ := place
      cases kind <;> exact mailbox_purge hpoint rfl (fun _ => rfl) rfl rfl rfl
  | pops hpoint hrequests => exact mailbox_purge hpoint rfl (fun _ => rfl) rfl rfl rfl
  | registers hpoint =>
      exact mailbox_registering (fun _ => by rw [hpoint]; rfl) (fun _ => rfl) rfl rfl rfl rfl
  | registerNext place hpoint hlt =>
      exact mailbox_registering (fun _ => by rw [hpoint]; rfl) (fun _ => rfl) rfl rfl rfl rfl
  | registered place hpoint hle => exact mailbox_registered hpoint hle
  | adds place p hpoint hp hfinish hactive =>
      exact mailbox_registering (fun _ => by rw [hpoint]; rfl) (fun _ => rfl) rfl rfl rfl rfl
  | drops place p hpoint hp hdrop =>
      exact mailbox_registering (fun _ => by rw [hpoint]; rfl) (fun _ => rfl) rfl rfl rfl rfl
  | removes place p hpoint =>
      obtain ⟨kind, i⟩ := place
      cases kind <;>
        exact mailbox_registering (fun _ => by rw [hpoint]; rfl) (fun _ => rfl) rfl rfl rfl rfl
  | deletes place p hpoint =>
      exact mailbox_registering (fun _ => by rw [hpoint]; rfl) (fun _ => rfl) rfl rfl rfl rfl
  | skipsSelect hpoint hfinish => exact mailbox_again (fun _ => rfl) rfl rfl
  | selects hpoint hfinish =>
      exact mailbox_select (fun _ => by rw [hpoint]; rfl) rfl rfl rfl rfl rfl rfl
  | checksSocket ret c hpoint hc => exact mailbox_checkSocket (fun _ => rfl) hc rfl rfl
  | manageNext i hpoint hlt => exact mailbox_again (fun _ => rfl) rfl rfl
  | managed i hpoint hle => exact mailbox_again (fun _ => rfl) rfl rfl
  | manages i p q io hpoint hp hq => exact mailbox_again (fun _ => rfl) rfl rfl
  | promoteNext i hpoint hlt => exact mailbox_again (fun _ => rfl) rfl rfl
  | promoted i hpoint hle => exact mailbox_again (fun _ => rfl) rfl rfl
  | promotes i p changed q io hpoint hp hq =>
      cases changed <;> exact mailbox_again (fun _ => rfl) rfl rfl
  | leaves i p hpoint => exact mailbox_again (fun _ => rfl) rfl rfl
  | joins i p hpoint => exact mailbox_again (fun _ => rfl) rfl rfl
  | checksBad ret c hpoint hc =>
      refine mailbox_checkSocket (fun item => ?_) hc rfl rfl
      dsimp only
      split <;> rfl
  | checkNext place hpoint hlt => exact mailbox_again (fun _ => rfl) rfl rfl
  | checked place hpoint hle => exact mailbox_again (looked_behindCheck place.kind) rfl rfl
  | checks place p io hpoint hp =>
      obtain ⟨kind, i⟩ := place
      cases kind <;> exact mailbox_again (fun _ => rfl) rfl rfl
  | cleans kind p rest hpoint hpeers =>
      cases kind <;> exact mailbox_again (fun item => by rw [setPeers, hpoint]; rfl) rfl rfl
  | cleaned kind hpoint hpeers => exact mailbox_again (looked_behindCleanup kind) rfl rfl
  | forgets pinfo rest hpoint hrequests =>
      exact mailbox_again (fun item => by rw [hpoint]; rfl) rfl rfl
  | ends hpoint hrequests => exact mailbox_again (fun _ => rfl) rfl rfl

/-! ## The other threads -/

theorem countP_caller {p : Caller → Bool} {callers : List Caller} {k : Nat} {caller : Caller}
    (hcaller : callers[k]? = some caller) (rest : Option Caller) :
    (callers.eraseIdx k ++ rest.toList).countP p + [caller].countP p =
      callers.countP p + rest.toList.countP p := by
  have hperm := (perm_cons_eraseIdx hcaller).countP_eq p
  rw [← List.singleton_append, List.countP_append] at hperm
  rw [List.countP_append]
  omega

theorem mailbox_put (item : ManagerItem) (hpoint : t.point = m.point)
    (hmissed : ∀ x, t.missed x ≤ m.missed x + if x = item then 1 else 0)
    (hsocket : t.controlSocket = m.controlSocket)
    (hcallers : t.callers.countP Caller.posts = m.callers.countP Caller.posts + 1) :
    m.mailbox.Follows t.mailbox := by
  rw [mailbox, mailbox, hpoint, hsocket, hcallers]
  exact Mailbox.follows_put item (fun _ => id) fun x _ => hmissed x

theorem mailbox_caller {k : Nat} {caller : Caller} {rest : Option Caller}
    (hcaller : m.callers[k]? = some caller) (h : m.Called caller t rest)
    (hfd : m.controlSocket.fd0 ≠ -1) : m.mailbox.Follows
      (mailbox { t with callers := t.callers.eraseIdx k ++ rest.toList }) := by
  have hcount := countP_caller (p := Caller.posts) hcaller rest
  cases h with
  | counts p =>
      refine mailbox_skip (fun item hitem => ⟨hitem, ?_⟩) rfl hcount
      cases item <;> exact Nat.le_refl _
  | addsPeer p =>
      refine mailbox_put .peer rfl (fun item => ?_) rfl hcount
      cases item with
      | finish => exact Nat.le_refl _
      | request => exact Nat.le_refl _
      | peer =>
          change (m.connectingPeerList ++ [p]).length - m.connectingPeers ≤
            m.connectingPeerList.length - m.connectingPeers + 1
          rw [List.length_append, List.length_singleton]
          omega
  | requests pinfo =>
      refine mailbox_put .request rfl (fun item => ?_) rfl hcount
      cases item with
      | finish => exact Nat.le_refl _
      | request =>
          change (m.toBeClosed ++ [pinfo]).length ≤ _
          rw [List.length_append]
          exact Nat.le_refl _
      | peer => exact Nat.le_refl _
  | destroys =>
      refine mailbox_put .finish rfl (fun item => ?_) rfl hcount
      cases item with
      | finish => exact Nat.le_add_left _ _
      | request => exact Nat.le_refl _
      | peer => exact Nat.le_refl _
  | posts c hc =>
      unfold ControlSocket.post at hc
      rw [if_neg hfd] at hc
      split at hc
      · obtain rfl := Option.some.inj hc
        have hannouncing : m.callers.countP Caller.posts =
            (m.callers.eraseIdx k ++ []).countP Caller.posts + 1 := hcount.symm
        rw [mailbox, hannouncing]
        refine Mailbox.follows_signal fun item hitem => ⟨hitem, ?_⟩
        cases item <;> exact Nat.le_refl _
      · cases hc

theorem mailbox_stepped (h : m.Stepped op t) (hfd : m.controlSocket.fd0 ≠ -1) :
    m.mailbox.Follows t.mailbox := by
  have hother : ∀ caller : Caller, caller.posts = false →
      (m.callers ++ [caller]).countP Caller.posts = m.callers.countP Caller.posts := by
    intro caller hcaller
    rw [List.countP_append, List.countP_singleton, hcaller]
    rfl
  cases h with
  | advance io t h => exact mailbox_advanced h
  | select answer hpoint =>
      cases answer with
      | ready setr setw => exact mailbox_again (fun _ => rfl) rfl rfl
      | badDescriptor =>
          exact mailbox_select (fun _ => by rw [hpoint]; rfl) rfl rfl rfl rfl rfl rfl
      | other => exact mailbox_again (fun _ => rfl) rfl rfl
  | waitfor hpoint hfinish hwaited => exact mailbox_again (fun _ => rfl) rfl rfl
  | addConnectionPeer peer =>
      refine mailbox_skip (fun item hitem => ⟨hitem, ?_⟩) rfl (hother _ rfl)
      cases item <;> exact Nat.le_refl _
  | closePInfo pinfo =>
      refine mailbox_skip (fun item hitem => ⟨hitem, ?_⟩) rfl (hother _ rfl)
      cases item <;> exact Nat.le_refl _
  | destroy =>
      refine mailbox_skip (fun item hitem => ⟨hitem, ?_⟩) rfl (hother _ rfl)
      cases item <;> exact Nat.le_refl _
  | caller k caller t rest hcaller hcalled => exact mailbox_caller hcaller hcalled hfd

/-! ## Runs -/

theorem pipe_advanced (h : m.Advanced t) :
    t.controlSocket.fd0 = m.controlSocket.fd0 ∧
      t.controlSocket.capacity = m.controlSocket.capacity := by
  have hcheck : ∀ {c : ControlSocket} {ret : Int},
      m.controlSocket.checkSocket m.sets.setr = some (ret, c) →
        c.fd0 = m.controlSocket.fd0 ∧ c.capacity = m.controlSocket.capacity := by
    intro c ret hc
    obtain ⟨rfl, -⟩ | ⟨-, -, rfl⟩ := checkSocket_cases hc <;> exact ⟨rfl, rfl⟩
  cases h with
  | checksSocket ret c hpoint hc => exact hcheck hc
  | checksBad ret c hpoint hc => exact hcheck hc
  | behind place | registered place | offers place | removes place | checks place =>
      obtain ⟨kind, i⟩ := place
      cases kind <;> exact ⟨rfl, rfl⟩
  | cleans kind => cases kind <;> exact ⟨rfl, rfl⟩
  | _ => exact ⟨rfl, rfl⟩

theorem pipe_stepped (h : m.Stepped op t) :
    t.controlSocket.fd0 = m.controlSocket.fd0 ∧
      t.controlSocket.capacity = m.controlSocket.capacity := by
  cases h with
  | advance io t h => exact pipe_advanced h
  | select answer => cases answer <;> exact ⟨rfl, rfl⟩
  | caller k caller t rest hcaller hcalled =>
      cases hcalled with
      | posts c hc => exact ⟨(post_cases hc).1, (post_cases hc).2.1⟩
      | _ => exact ⟨rfl, rfl⟩
  | _ => exact ⟨rfl, rfl⟩

theorem Reachable.pipe (h : Reachable fd0 capacity m) :
    m.controlSocket.fd0 = fd0 ∧ m.controlSocket.capacity = capacity := by
  refine Reach.invariant (I := fun m : ManagerThread =>
    m.controlSocket.fd0 = fd0 ∧ m.controlSocket.capacity = capacity) ?_
    (fun m op t hm _ hstep => ?_) h
  · rintro m rfl
    exact ⟨rfl, rfl⟩
  · have hpipe := pipe_stepped (stepped_perform hstep)
    exact ⟨hpipe.1.trans hm.1, hpipe.2.trans hm.2⟩

theorem Reachable.covered (h : Reachable fd0 capacity m) (hfd : 0 < fd0) : m.mailbox.Covered := by
  have hboth : m.mailbox.Covered ∧ m.controlSocket.fd0 = fd0 := by
    refine Reach.invariant (I := fun m : ManagerThread =>
      m.mailbox.Covered ∧ m.controlSocket.fd0 = fd0) ?_ (fun m op t hm _ hstep => ?_) h
    · rintro m rfl
      exact ⟨Mailbox.covered_again (create (.create fd0 capacity)).mailbox, rfl⟩
    · have hstepped := stepped_perform hstep
      exact ⟨hm.1.follows (mailbox_stepped hstepped (by omega)),
        (pipe_stepped hstepped).1.trans hm.2⟩
  exact hboth.1

theorem Blocked.announced (hblocked : m.Blocked) (h : Reachable fd0 capacity m) (hfd : 0 < fd0) :
    (if m.finish then 1 else 0) + m.toBeClosed.length +
      (m.connectingPeerList.length - m.connectingPeers) ≤ m.callers.countP Caller.posts := by
  obtain ⟨hpoint, hbytes⟩ := hblocked
  have hasleep := (h.covered hfd).asleep hbytes
  have hlooked : ∀ item, m.point.looked item = true := by
    rcases hpoint with hpoint | hpoint <;> exact fun item => by rw [hpoint]; rfl
  have hunseen : ∀ item, m.mailbox.unseen item = m.missed item := fun item =>
    if_pos (hlooked item)
  rwa [sum_managerItem, hunseen, hunseen, hunseen] at hasleep

namespace Sample

/-- A manager without peers, on a pipe with descriptor `3`. -/
def idle : ManagerThread := create (.create 3 65536)

/-- One peer is added, and the manager goes round once. -/
def onePeer : List Op :=
  [.addConnectionPeer (.create (fun _ _ => 0) (some ⟨5, ⟨10, 0, 0, 1⟩, 1000⟩)
      (some ⟨6, ⟨10, 0, 0, 2⟩, 80⟩) true (some 1)),
    .caller 0, .caller 0, .caller 0] ++
  List.replicate 8 (.advance .idle) ++ [.select (.ready (fun _ => false) fun _ => false)] ++
  List.replicate 13 (.advance .idle)

end Sample

end ManagerThread

end Relb
