import Relb.Proofs.BalancerBasics
/-!
# The delivery of reports

The reports about a connection travel from its peer through the queue to `ServerList`.
`Delivered` ties the two ends together: what a held peer has reported is what has been
processed and what is still in the queue, in this order; and a listed entry without a peer has
been concluded on the way.
-/

namespace Relb

open Lib

open ConnectionPeer (Report report)

/-- The reports processed once `msg` has been taken from the queue. -/
def taken (done : Ptr → List Report) (msg : Message) : Ptr → List Report :=
  Function.update done msg.param (done msg.param ++ (report msg.id).toList)

theorem taken_append (done : Ptr → List Report) (msg : Message) (queue : List Message) (a : Ptr) :
    taken done msg a ++ pending queue a = done a ++ pending (msg :: queue) a := by
  rw [pending_cons, taken]
  by_cases ha : a = msg.param
  · subst ha
    rw [Function.update_self, if_pos rfl, List.append_assoc]
  · rw [Function.update_of_ne ha, if_neg (Ne.symm ha), List.nil_append]

theorem taken_of_none {done : Ptr → List Report} {msg : Message} (hr : report msg.id = none) :
    taken done msg = done := by
  rw [taken, hr, Option.toList_none, List.append_nil, Function.update_eq_self]

namespace Balancer

variable {b b' : Balancer} {done done' : Ptr → List Report} {a : Ptr} {msg : Message}
  {now : Datetime} {m : ManagerId} {p : ConnectionPeer}

/-- `done` holds the reports that have been processed for each entry. -/
structure Delivered (b : Balancer) (done : Ptr → List Report) : Prop where
  posted : ∀ msg ∈ b.queue, msg.id ∈ postedIds
  oneLive : b.OneLive
  held : ∀ m p a, b.Held m p → p.pinfo = some a → p.reports = done a ++ pending b.queue a
  left : ∀ q ∈ b.list.peerList, (∃ m p, b.Held m p ∧ p.pinfo = some q.addr) ∨
    Concluded (done q.addr ++ pending b.queue q.addr)

/-- No connection can report to the entry at `a` any more. -/
def Unused (b : Balancer) (a : Ptr) : Prop :=
  (∀ m p, b.Held m p → p.pinfo ≠ some a) ∧ pending b.queue a = []

theorem held_iteration {t : ThreadedConnectionManager} {msgs : List Message}
    {m' : ManagerId} : Held { b.setManager m t with queue := b.queue ++ msgs } m' p ↔
      if m' = m then p ∈ t.peers else b.Held m' p := by
  by_cases hm : m' = m
  · subst hm
    simp [Held, setManager]
  · simp [Held, setManager, Function.update_of_ne hm, if_neg hm]

namespace Delivered

theorem of_same (h : b.Delivered done)
    (hpeers : ∀ m, (b'.managers m).peers = (b.managers m).peers) (hqueue : b'.queue = b.queue)
    (hentries : b'.list.peerList = b.list.peerList) : b'.Delivered done := by
  have hheld : ∀ m p, b'.Held m p ↔ b.Held m p := fun m p => by rw [Held, hpeers, Held]
  refine ⟨hqueue ▸ h.posted, h.oneLive.of_subperm fun m => by rw [hpeers], ?_, ?_⟩
  · intro m p a hp
    rw [hqueue]
    exact h.held m p a ((hheld m p).mp hp)
  · rw [hentries, hqueue]
    simpa only [hheld] using h.left

theorem passRequests (h : b.Delivered done) : b.passRequests.Delivered done :=
  h.of_same (fun m => by simp [ThreadedConnectionManager.peers]) rfl rfl

/-- One iteration of one manager. -/
theorem manager (h : b.Delivered done) {op : ThreadedConnectionManager.Op}
    {t : ThreadedConnectionManager} {msgs : List Message} (hkeeps : (b.managers m).Keeps t msgs)
    (hop : (b.managers m).perform op = some (t, msgs)) :
    Delivered { b.setManager m t with queue := b.queue ++ msgs } done := by
  -- a peer that has just reported is still held, and no other manager has its entry
  have hsilent : ∀ m' p a, m' ≠ m → b.Held m' p → p.pinfo = some a → pending msgs a = [] := by
    intro m' p a hne hp hpinfo
    by_contra hmsgs
    obtain ⟨q, hq, hqinfo⟩ := hkeeps.own a hmsgs
    obtain ⟨p₀, hp₀, hsame, -⟩ := hkeeps.origin q hq
    have hshared : p.pinfo = p₀.pinfo := by
      calc
        p.pinfo = some a := hpinfo
        _ = q.pinfo := hqinfo.symm
        _ = p₀.pinfo := hsame
    exact hne (h.oneLive.apart m' m p p₀ hp hp₀ hshared)
  refine ⟨?_, h.oneLive.manager hop, ?_, ?_⟩
  · intro msg hmsg
    exact (List.mem_append.mp hmsg).elim (h.posted msg) (hkeeps.posted msg)
  · intro m' p a hp hpinfo
    rw [held_iteration] at hp
    rw [pending_append, ← List.append_assoc]
    split at hp
    · rename_i hm
      subst hm
      obtain ⟨p₀, hp₀, hsame, hreports⟩ := hkeeps.origin p hp
      have hpinfo₀ : p₀.pinfo = some a := hsame.symm.trans hpinfo
      rw [hreports a hpinfo₀, h.held m' p₀ a hp₀ hpinfo₀]
    · rename_i hm
      rw [hsilent m' p a hm hp hpinfo, List.append_nil]
      exact h.held m' p a hp hpinfo
  · intro q hq
    rcases h.left q hq with ⟨m', p, hp, hpinfo⟩ | hconcluded
    · by_cases hm : m' = m
      · subst hm
        rcases hkeeps.stays p hp with ⟨p', hp', hsame⟩ | ⟨hconcluded, hmsgs⟩
        · exact .inl ⟨m', p', held_iteration.mpr (by rwa [if_pos rfl]), hsame.trans hpinfo⟩
        · right
          rw [hmsgs, List.append_nil, ← h.held m' p q.addr hp hpinfo]
          exact hconcluded
      · exact .inl ⟨m', p, held_iteration.mpr (by rwa [if_neg hm]), hpinfo⟩
    · right
      rw [pending_append, ← List.append_assoc]
      exact hconcluded.imp (List.mem_append_left _) (List.mem_append_left _)

theorem of_list (h : b.Delivered done) {list : ServerList} {queue : List Message}
    (hposted : ∀ msg ∈ queue, msg.id ∈ postedIds)
    (hreports : ∀ a, done' a ++ pending queue a = done a ++ pending b.queue a)
    (hentries : ∀ q ∈ list.peerList, q.addr ∈ b.list.peerList.map PeerInfo.addr) :
    Delivered { b with list := list, queue := queue } done' := by
  refine ⟨hposted, h.oneLive.of_subperm fun m => List.Subperm.refl _, ?_, ?_⟩
  · intro m p a hp hpinfo
    rw [hreports]
    exact h.held m p a hp hpinfo
  · intro q hq
    obtain ⟨q', hq', haddr⟩ := List.mem_map.mp (hentries q hq)
    rw [hreports, ← haddr]
    exact h.left q' hq'

theorem take (h : b.Delivered done) {queue : List Message} (hqueue : b.queue = msg :: queue)
    (now : Datetime) :
    Delivered { b with list := b.list.processMessage msg now, queue := queue }
      (taken done msg) := by
  have hentries : (b.list.processMessage msg now).AllPeers fun q =>
      q.addr ∈ b.list.peerList.map PeerInfo.addr :=
    ServerList.AllPeers.processMessage (fun q hq => List.mem_map_of_mem hq) msg now
      fun q hq => hq
  refine h.of_list (fun x hx => h.posted x (hqueue ▸ List.mem_cons_of_mem _ hx)) (fun a => ?_)
    hentries
  rw [hqueue, taken_append]

theorem request_spec (hid : msg.id ∈ requestIds) : msg.id ∈ postedIds ∧ report msg.id = none := by
  have hall : ∀ id ∈ requestIds, id ∈ postedIds ∧ report id = none :=
    List.all_iff_forall_prop.mp (by decide)
  exact hall _ hid

theorem adminRequest (h : b.Delivered done) (hid : msg.id ∈ requestIds) :
    Delivered { b with queue := b.queue ++ [msg] } done := by
  obtain ⟨hposted, hsilent⟩ := request_spec hid
  refine h.of_list ?_ (fun a => ?_) fun q hq => List.mem_map_of_mem hq
  · intro x hx
    rcases List.mem_append.mp hx with hx | hx
    · exact h.posted x hx
    · rw [List.mem_singleton.mp hx]
      exact hposted
  · rw [pending_append, pending_cons, hsilent]
    simp

/-- A new connection, to whose entry nobody else can report. -/
theorem enter (h : b.Delivered done) (pcm : ManagerId) (hreports : p.reports = [])
    (hpinfo : p.pinfo = some a) (hunused : b.Unused a)
    (hpeers : ∀ m, (b'.managers m).peers = (b.managers m).peers ++ if m = pcm then [p] else [])
    (hqueue : b'.queue = b.queue)
    (hentries : ∀ q ∈ b'.list.peerList, q.addr ∈ b.list.peerList.map PeerInfo.addr ∨ q.addr = a) :
    b'.Delivered (Function.update done a []) := by
  refine ⟨hqueue ▸ h.posted, h.oneLive.enter hpinfo hunused.1 hpeers, ?_, ?_⟩
  · intro m x y hx hy
    rw [hqueue]
    rcases (held_append hpeers).mp hx with hx | ⟨rfl, rfl⟩
    · have hne : y ≠ a := fun heq => hunused.1 m x hx (heq ▸ hy)
      rw [Function.update_of_ne hne]
      exact h.held m x y hx hy
    · obtain rfl := Option.some.inj (hpinfo.symm.trans hy)
      rw [Function.update_self, hunused.2, hreports]
      rfl
  · intro q hq
    rw [hqueue]
    by_cases hqa : q.addr = a
    · exact .inl ⟨pcm, p, (held_append hpeers).mpr (.inr ⟨rfl, rfl⟩), hqa ▸ hpinfo⟩
    · obtain ⟨q', hq', haddr⟩ := List.mem_map.mp ((hentries q hq).resolve_right hqa)
      rw [Function.update_of_ne hqa, ← haddr]
      apply (h.left q' hq').imp_left
      rintro ⟨m, x, hx, hxinfo⟩
      exact ⟨m, x, (held_append hpeers).mpr (.inl hx), hxinfo⟩

theorem started (h : Started b) : b.Delivered fun _ => [] := by
  have hone := oneLive_started h
  obtain ⟨list, hlist, rfl⟩ := h
  refine ⟨fun msg hmsg => (nomatch hmsg), hone, fun m p a hp => (nomatch hp), fun q hq => ?_⟩
  change q ∈ list.peerList at hq
  rw [hlist.fresh.peerList] at hq
  cases hq

end Delivered

end Balancer

end Relb
