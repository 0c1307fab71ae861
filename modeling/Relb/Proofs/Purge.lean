import Relb.Proofs.Tracking
/-!
# A purge closes everything

The purge asks the manager of every entry to close its peer. A peer that is still active
therefore has a request waiting (`Doomed`), until its manager has served them all; the end
that the peer reports then finds an entry from before the purge, which is not kept.
-/

namespace Relb

open Lib

open ConnectionPeer (Report report)

namespace ThreadedConnectionManager

variable {m t : ThreadedConnectionManager} {msgs : List Message} {q : ConnectionPeer}

/-- An active peer has been one, and a request for it still waits. -/
theorem Iterated.active (h : m.Iterated t msgs) (hq : q ∈ t.peers) (hactive : q.isActive = true) :
    ∃ p ∈ m.peers, p.isActive = true ∧ p.pinfo = q.pinfo ∧
      (q.pinfo ∈ m.toBeClosed → q.pinfo ∈ t.toBeClosed) := by
  cases h with
  | one p q' rest op hop hm ht _ hrequests =>
      rcases List.mem_cons.mp (ht.mem_iff.mp hq) with rfl | hrest
      · have hext := p.extends_perform op
        rw [hop] at hext
        refine ⟨p, hm.mem_iff.mpr List.mem_cons_self, ?_, hext.pinfo.symm, fun h => hrequests ▸ h⟩
        by_contra hp
        rw [ConnectionPeer.inactive_perform (Bool.not_eq_true _ ▸ hp) hop] at hactive
        cases hactive
      · exact ⟨q, hm.mem_iff.mpr (List.mem_cons_of_mem _ hrest), hactive, rfl,
          fun h => hrequests ▸ h⟩
  | removed p rest _ hm ht _ hrequests =>
      rw [ht] at hq
      exact ⟨q, hm.mem_iff.mpr (List.mem_cons_of_mem _ hq), hactive, rfl, fun h => hrequests ▸ h⟩
  | served top htop ht _ hrequests =>
      rw [ht] at hq
      obtain ⟨p, hp, rfl⟩ := List.mem_map.mp hq
      by_cases hpinfo : p.pinfo = top
      · rw [← hpinfo, ConnectionPeer.closePInfo_self, ConnectionPeer.isActive_post,
          ConnectionPeer.isActive_close] at hactive
        cases hactive
      · rw [ConnectionPeer.closePInfo_other hpinfo] at hactive ⊢
        refine ⟨p, hp, hactive, rfl, fun hmem => ?_⟩
        rw [← List.dropLast_append_getLast? top htop, List.mem_append, List.mem_singleton] at hmem
        exact hrequests ▸ hmem.resolve_right hpinfo

end ThreadedConnectionManager

namespace ServerList

theorem closeRequests_purgeConnections (s : ServerList) (now : Datetime) :
    (s.purgeConnections now).closeRequests = s.closeRequests ++
      s.peerList.flatMap fun q => (q.manager.map (·, some q.addr)).toList := by
  have hfold : ∀ (l : List PeerInfo) (s : ServerList),
      (l.foldl (fun s q => s.closePInfo q.manager (some q.addr)) s).closeRequests =
        s.closeRequests ++ l.flatMap fun q => (q.manager.map (·, some q.addr)).toList := by
    intro l
    induction l with
    | nil => exact fun s => (List.append_nil _).symm
    | cons q l ih =>
        intro s
        rw [List.foldl_cons, ih, closeRequests_closePInfo, List.flatMap_cons, List.append_assoc]
  exact hfold s.peerList s

end ServerList

namespace Balancer

variable {b b' c : Balancer} {done : Ptr → List Report} {a : Ptr} {op : Op} {now : Datetime}
  {M : ManagerId → Prop}

/-- What may come after a purge: neither a connection nor another purge. -/
def Op.Settles : Op → Prop
  | .setServer .. => False
  | .purgeConnections _ => False
  | _ => True

/-! ## Requests -/

/-- For every active peer of the entry a request waits, and its manager is one of `M`. -/
def Doomed (b : Balancer) (M : ManagerId → Prop) (a : Ptr) : Prop :=
  ∀ m p, b.Held m p → p.pinfo = some a → p.isActive = true →
    M m ∧ some a ∈ (b.managers m).toBeClosed

namespace Doomed

theorem passRequests (h : b.Doomed M a) : b.passRequests.Doomed M a := by
  intro m p hp hpinfo hactive
  obtain ⟨hm, hmem⟩ := h m p (held_passRequests.mp hp) hpinfo hactive
  rw [toBeClosed_passRequests]
  exact ⟨hm, List.mem_append_left _ hmem⟩

theorem manager (h : b.Doomed M a) {m₁ : ManagerId} {op : ThreadedConnectionManager.Op}
    {t : ThreadedConnectionManager} {msgs : List Message}
    (hop : (b.managers m₁).perform op = some (t, msgs)) :
    Doomed { b.setManager m₁ t with queue := b.queue ++ msgs } M a := by
  intro m p hp hpinfo hactive
  change M m ∧ some a ∈ ((b.setManager m₁ t).managers m).toBeClosed
  rw [held_iteration] at hp
  split at hp
  · rename_i hm₁
    subst hm₁
    obtain ⟨p₀, hp₀, hactive₀, hsame, hrequests⟩ :=
      (ThreadedConnectionManager.iterated_perform hop).active hp hactive
    obtain ⟨hm, hmem⟩ := h m p₀ hp₀ (hsame.trans hpinfo) hactive₀
    rw [managers_setManager_self]
    rw [hpinfo] at hrequests
    exact ⟨hm, hrequests hmem⟩
  · rename_i hne
    rw [managers_setManager_of_ne hne]
    exact h m p hp hpinfo hactive

theorem perform (h : b.Doomed M a) (hsettles : op.Settles) (hb : b.perform op = some b') :
    b'.Doomed M a := by
  cases performs hb with
  | setServer => cases hsettles
  | @processMessage msg queue _ now =>
      have hsame : Doomed { b with list := b.list.processMessage msg now, queue := queue } M a := h
      exact hsame.passRequests
  | adminRequest => exact h
  | cleanConnections =>
      have hsame : Doomed { b with list := b.list.cleanConnections } M a := h
      exact hsame.passRequests
  | purgeConnections => cases hsettles
  | manager m hop => exact h.manager hop

theorem served (h : b.Doomed M a) (hserved : ∀ m, M m → (b.managers m).toBeClosed = []) :
    b.Doomed (fun _ => False) a := by
  intro m p hp hpinfo hactive
  obtain ⟨hm, hmem⟩ := h m p hp hpinfo hactive
  rw [hserved m hm] at hmem
  cases hmem

end Doomed

theorem Tracked.doomed_purgeConnections (h : b.Tracked done) {q : PeerInfo}
    (hq : q ∈ b.list.peerList) (now : Datetime) :
    (Balancer.passRequests { b with list := b.list.purgeConnections now }).Doomed
      (fun m => q.manager = some m) q.addr := by
  intro m p hp hpinfo _
  have hheld := held_passRequests.mp hp
  have hm := h.attended q hq m p hheld hpinfo
  refine ⟨hm, ?_⟩
  rw [toBeClosed_passRequests]
  refine List.mem_append_right _ (List.mem_map.mpr ⟨(m, some q.addr), ?_, rfl⟩)
  rw [List.mem_filter]
  refine ⟨?_, beq_self_eq_true m⟩
  change (m, some q.addr) ∈ (b.list.purgeConnections now).closeRequests
  rw [ServerList.closeRequests_purgeConnections]
  refine List.mem_append_right _ (List.mem_flatMap.mpr ⟨q, hq, ?_⟩)
  rw [hm]
  exact List.mem_singleton_self _

/-! ## Entries -/

/-- The entries are from before the last purge, and no end has been processed for the one at `a`. -/
structure Settling (b : Balancer) (done : Ptr → List Report) (a : Ptr) : Prop where
  tracked : b.Tracked done
  old : ∀ q ∈ b.list.peerList, q.created < b.list.lastConnectionsCleanup
  running : ∀ q ∈ b.list.peerList, q.addr = a → ¬Concluded (done a)

namespace Settling

theorem passRequests (h : b.Settling done a) : b.passRequests.Settling done a :=
  ⟨h.tracked.passRequests, h.old, h.running⟩

theorem processMessage (h : b.Settling done a) {msg : Message} {queue : List Message}
    (hqueue : b.queue = msg :: queue) (now : Datetime) :
    Settling { b with list := b.list.processMessage msg now, queue := queue }
      (taken done msg) a := by
  have hmem : ∀ x ∈ (b.list.processMessage msg now).peerList,
      ∃ q ∈ b.list.peerList, q.addr = x.addr ∧ q.created = x.created := by
    intro x hx
    rcases ServerList.mem_processMessage h.tracked.nodup hx with ⟨hx, -⟩ | ⟨q, hq, -, rfl⟩
    · exact ⟨x, hx, rfl, rfl⟩
    · exact ⟨q, hq, rfl, rfl⟩
  refine ⟨h.tracked.processMessage hqueue now, fun x hx => ?_, fun x hx haddr hconcluded => ?_⟩
  · obtain ⟨q, hq, -, hcreated⟩ := hmem x hx
    change x.created < (b.list.processMessage msg now).lastConnectionsCleanup
    rw [ServerList.lastConnectionsCleanup_processMessage, ← hcreated]
    exact h.old q hq
  · obtain ⟨q, hq, hsame, -⟩ := hmem x hx
    apply h.running q hq (hsame.trans haddr)
    by_cases ha : msg.param = a
    · rw [taken, ha, Function.update_self] at hconcluded
      cases hr : report msg.id with
      | none => simpa [hr] using hconcluded
      | some r =>
          have hestablished : r = .established := by
            by_contra hend
            exact ServerList.ne_of_mem_processMessage h.tracked.nodup hr hend h.old
              (fun q hq => (h.tracked.permitted q hq).dstServer) hx (haddr.trans ha.symm)
          rw [hr, hestablished] at hconcluded
          simpa [Concluded] using hconcluded
    · rwa [taken, Function.update_of_ne (Ne.symm ha)] at hconcluded

theorem perform (h : b.Settling done a) (hsettles : op.Settles) (hb : b.perform op = some b') :
    ∃ done', b'.Settling done' a := by
  cases performs hb with
  | setServer => cases hsettles
  | processMessage hqueue now => exact ⟨_, (h.processMessage hqueue now).passRequests⟩
  | adminRequest hid => exact ⟨done, h.tracked.adminRequest hid, h.old, h.running⟩
  | cleanConnections =>
      have hclean : Settling { b with list := b.list.cleanConnections } done a := by
        refine ⟨h.tracked.cleanConnections, fun x hx => ?_, fun x hx => ?_⟩
        · change x.created < b.list.cleanConnections.lastConnectionsCleanup
          rw [ServerList.lastConnectionsCleanup_cleanConnections]
          rw [ServerList.peerList_cleanConnections] at hx
          exact h.old x (List.mem_of_mem_filter hx)
        · rw [ServerList.peerList_cleanConnections] at hx
          exact h.running x (List.mem_of_mem_filter hx)
      exact ⟨done, hclean.passRequests⟩
  | purgeConnections => cases hsettles
  | manager m hop => exact ⟨done, h.tracked.manager hop, h.old, h.running⟩

theorem removed (h : b.Settling done a) (hclosed : b.Doomed (fun _ => False) a)
    (hqueue : b.queue = []) : ∀ x ∈ b.list.peerList, x.addr ≠ a := by
  rintro x hx rfl
  apply h.running x hx rfl
  have hleft := h.tracked.delivered.left x hx
  rw [hqueue, pending_nil, List.append_nil] at hleft
  refine hleft.elim (fun hheld => ?_) id
  obtain ⟨m, p, hp, hpinfo⟩ := hheld
  have hinactive : p.isActive = false := by
    by_contra hactive
    exact (hclosed m p hp hpinfo (Bool.not_eq_false _ ▸ hactive)).1
  have hreports := h.tracked.delivered.held m p x.addr hp hpinfo
  rw [hqueue, pending_nil, List.append_nil] at hreports
  rw [← hreports]
  exact (h.tracked.staged m).concluded ThreadedConnectionManager.final_departed hp hinactive

end Settling

theorem Tracked.settling_purgeConnections (h : b.Tracked done)
    (hlate : ∀ q ∈ b.list.peerList, q.created < now) {q : PeerInfo} (hq : q ∈ b.list.peerList)
    (huse : q.InUse) :
    (Balancer.passRequests { b with list := b.list.purgeConnections now }).Settling done
      q.addr := by
  refine ⟨(h.purgeConnections now).passRequests, fun x hx => ?_, fun _ _ _ hconcluded =>
    h.ended q hq hconcluded huse⟩
  change x ∈ (b.list.purgeConnections now).peerList at hx
  rw [ServerList.peerList_purgeConnections] at hx
  exact hlate x hx

/-! ## The purge -/

/-- A purge of `b` at a time when all entries are older, and what happens from then on: no
connection comes, and the managers of the entries serve their requests at some point. -/
structure Purged (b : Balancer) (now : Datetime) (settle : List Op) (b' : Balancer) : Prop where
  late : ∀ q ∈ b.list.peerList, q.created < now
  settles : ∀ op ∈ settle, op.Settles
  run : ∃ c, b.perform (.purgeConnections now) = some c ∧ settle.foldlM perform c = some b' ∧
    ∀ q ∈ b.list.peerList, ∀ m, q.manager = some m →
      Visits perform (fun d => (d.managers m).toBeClosed = []) c settle

/-- After a purge and the processing of all messages, nothing is left of a connection. -/
theorem Tracked.purged (h : b.Tracked done) {settle : List Op} (hpurged : b.Purged now settle b')
    (hqueue : b'.queue = []) {q : PeerInfo} (hq : q ∈ b.list.peerList) (huse : q.InUse) :
    (∀ m p, b'.Held m p → p.pinfo = some q.addr → p.isActive = false) ∧
      ∀ x ∈ b'.list.peerList, x.addr ≠ q.addr := by
  obtain ⟨c, hc, hrun, hserved⟩ := hpurged.run
  obtain rfl := Option.some.inj hc
  have hdoomed := h.doomed_purgeConnections hq now
  have hclosed : b'.Doomed (fun _ => False) q.addr := by
    have hkept : ∀ M, ∀ op ∈ settle, ∀ d d' : Balancer, d.Doomed M q.addr →
        d.perform op = some d' → d'.Doomed M q.addr :=
      fun M op hop d d' hd => hd.perform (hpurged.settles op hop)
    cases hm : q.manager with
    | none =>
        refine kept_foldlM (I := fun d => d.Doomed (fun _ => False) q.addr) (hkept _)
          (hdoomed.served fun m hsome => ?_) hrun
        cases hm.symm.trans hsome
    | some m =>
        refine (hserved q hq m hm).foldlM (hkept _) (hkept _) (fun d hd hempty => ?_) hdoomed hrun
        apply hd.served
        intro m' hsome
        obtain rfl := Option.some.inj (hm.symm.trans hsome)
        exact hempty
  have hsettling : ∃ done', b'.Settling done' q.addr := by
    refine kept_foldlM (I := fun d => ∃ done', d.Settling done' q.addr) ?_ ⟨done, ?_⟩ hrun
    · rintro op hop d d' ⟨done', hd⟩ hstep
      exact hd.perform (hpurged.settles op hop) hstep
    · exact h.settling_purgeConnections hpurged.late hq huse
  obtain ⟨done', hsettling⟩ := hsettling
  refine ⟨fun m p hp hpinfo => ?_, hsettling.removed hclosed hqueue⟩
  by_contra hactive
  exact (hclosed m p hp hpinfo (Bool.not_eq_false _ ▸ hactive)).1

/-- In a run that accepts no client twice, and in which nothing names the address of a new entry,
a purge closes every connection in use and leaves no entry of it. -/
theorem purge_closes {b₀ : Balancer} {ops settle : List Op} (hstart : Started b₀)
    (hfresh : Guarded perform Fresh b₀ ops) (hdistinct : (b₀.acceptedAlong ops).Nodup)
    (hb : ops.foldlM perform b₀ = some b) (hpurged : b.Purged now settle b')
    (hqueue : b'.queue = []) : ∀ q ∈ b.list.peerList, q.InUse →
      (∀ m p, b'.Held m p → p.pinfo = some q.addr → p.isActive = false) ∧
        ∀ x ∈ b'.list.peerList, x.addr ≠ q.addr := by
  have hempty : b₀.list.AllPeers (·.client ∈ []) := by
    obtain ⟨list, hlist, rfl⟩ := hstart
    intro q hq
    change q ∈ list.peerList at hq
    rw [hlist.fresh.peerList] at hq
    cases hq
  obtain ⟨done, h⟩ := (Tracked.started hstart).foldlM hempty hfresh
    (fun _ _ hmem => nomatch hmem) hdistinct hb
  exact fun q hq huse => h.purged hpurged hqueue hq huse

/-- The address of a new entry is not that of a listed one. -/
def Unlisted (b : Balancer) : Op → Prop
  | .setServer _ _ _ addr _ _ _ => ∀ q ∈ b.list.peerList, q.addr ≠ addr
  | _ => True

instance (b : Balancer) : ∀ op, Decidable (b.Unlisted op)
  | .setServer _ _ _ addr _ _ _ =>
      inferInstanceAs (Decidable (∀ q ∈ b.list.peerList, q.addr ≠ addr))
  | .processMessage _ | .adminRequest _ | .cleanConnections | .purgeConnections _ | .manager _ _ =>
      .isTrue trivial

namespace Sample

def answered : List Op :=
  [accept, .manager 1 (.manageConnectingPeer 0 (fun _ => false) (fun _ => true) .idle),
    .processMessage 11]

/-- The manager serves its request, and the end of the connection is processed. -/
def afterPurge : List Op := [.manager 1 .serveRequest, .processMessage 21]

theorem guarded_answered : Guarded perform Fresh start answered :=
  ⟨⟨fun _ hq => (nomatch hq), fun _ _ hp => (nomatch hp), rfl⟩, fun _ _ => ⟨trivial, fun _ _ =>
    ⟨trivial, fun _ _ => trivial⟩⟩⟩

/-- The socket to one endpoint does not work any more. -/
def lost (d : Endpoint) : SocketIO :=
  { SocketIO.idle with checkSocket := fun e => if e = d then -1 else 0 }

def acceptAt (fd : Int) (pcm : ManagerId) (now : Datetime) : Op :=
  .setServer ⟨fd, ⟨10, 0, 0, 1⟩, (1000 + fd.toNat).toUInt16⟩ pcm now 100 200 9 fun _ _ => 0

/-- Three clients, one after the other at the same address. The first one leaves a peer that waits
for its server, whose end is then taken for the end of the second connection; that one is
established when the third connection has failed. -/
def recycled : List Op :=
  [acceptAt 1 1 10,
    .manager 1 (.manageConnectingPeer 0 (fun _ => false) (fun _ => true) .idle),
    .processMessage 11,
    .manager 1 (.manageConnections 0 (fun fd => fd == 1) (fun _ => false)
      ConnectionPeer.Sample.clientSends),
    .manager 1 (.checkPeers 0 (lost .client)),
    .processMessage 12, .cleanConnections,
    acceptAt 2 1 13,
    .manager 1 (.checkPeers 0 (lost .server)),
    .processMessage 14, .cleanConnections,
    acceptAt 3 2 15,
    .manager 2 (.checkConnectingPeers 0 (lost .server)),
    .processMessage 16,
    .manager 2 (.removeConnectingPeer 0),
    .manager 1 (.manageConnectingPeer 0 (fun _ => false) (fun _ => true) .idle),
    .processMessage 17]

end Sample

/-- The connection is established when the purge comes. -/
theorem purge_closes_answered : ∃ b b' : Balancer,
    Sample.answered.foldlM perform Sample.start = some b ∧ b.Purged 20 Sample.afterPurge b' ∧
      b'.queue = [] ∧ (∃ q ∈ b.list.peerList, q.InUse) ∧ ∀ q ∈ b.list.peerList, q.InUse →
        (∀ m p, b'.Held m p → p.pinfo = some q.addr → p.isActive = false) ∧
          ∀ x ∈ b'.list.peerList, x.addr ≠ q.addr := by
  have hrun : (Sample.answered.foldlM perform Sample.start).any fun b =>
      ((∃ q ∈ b.list.peerList, q.InUse) ∧
        ∀ q ∈ b.list.peerList, q.created < 20 ∧ q.manager = some 1) &&
      (b.perform (.purgeConnections 20)).any fun c =>
        Visits perform (fun d => (d.managers 1).toBeClosed = []) c Sample.afterPurge &&
        (Sample.afterPurge.foldlM perform c).any fun b' => b'.queue.isEmpty := by
    decide +kernel
  simp only [Option.any_eq_true, Bool.and_eq_true, decide_eq_true_eq, List.isEmpty_iff] at hrun
  obtain ⟨b, hb, ⟨huse, hentries⟩, c, hc, hvisits, b', hb', hqueue⟩ := hrun
  have hpurged : b.Purged 20 Sample.afterPurge b' := by
    refine ⟨fun q hq => (hentries q hq).1, ?_, c, hc, hb', fun q hq m hm => ?_⟩
    · intro op hop
      simp only [Sample.afterPurge, List.mem_cons, List.not_mem_nil, or_false] at hop
      rcases hop with rfl | rfl <;> trivial
    · obtain rfl := Option.some.inj ((hentries q hq).2.symm.trans hm)
      exact hvisits
  exact ⟨b, b', hb, hpurged, hqueue, huse, purge_closes Sample.started_start
    Sample.guarded_answered (by decide +kernel) hb hpurged hqueue⟩

/-- `new` may return the address of an entry that has been deleted: the purge then asks the wrong
manager. -/
theorem purge_misses : ∃ b b' : Balancer,
    Sample.recycled.foldlM perform Sample.start = some b ∧
      (Sample.start.acceptedAlong Sample.recycled).Nodup ∧
      Guarded perform Unlisted Sample.start Sample.recycled ∧
      b.Purged 20 [.manager 2 .serveRequest] b' ∧ b'.queue = [] ∧
      ∃ q ∈ b.list.peerList, q.InUse ∧ q ∈ b'.list.peerList ∧
        ∃ p, b'.Held 1 p ∧ p.pinfo = some q.addr ∧ p.isActive = true := by
  have hrun : (Sample.recycled.foldlM perform Sample.start).any fun b =>
      (∀ q ∈ b.list.peerList, q.created < 20 ∧ q.manager = some 2) &&
      (b.perform (.purgeConnections 20)).any fun c =>
        Visits perform (fun d => (d.managers 2).toBeClosed = []) c [.manager 2 .serveRequest] &&
        ([Op.manager 2 .serveRequest].foldlM perform c).any fun b' =>
          b'.queue.isEmpty && (∃ q ∈ b.list.peerList, q.InUse ∧ q ∈ b'.list.peerList ∧
            ∃ p ∈ (b'.managers 1).peers, p.pinfo = some q.addr ∧ p.isActive = true) := by
    decide +kernel
  simp only [Option.any_eq_true, Bool.and_eq_true, decide_eq_true_eq, List.isEmpty_iff] at hrun
  obtain ⟨b, hb, hentries, c, hc, hvisits, b', hb', hqueue, hleft⟩ := hrun
  refine ⟨b, b', hb, by decide +kernel, by decide +kernel, ?_, hqueue, hleft⟩
  refine ⟨fun q hq => (hentries q hq).1, ?_, c, hc, hb', fun q hq m hm => ?_⟩
  · intro op hop
    rw [List.mem_singleton.mp hop]
    trivial
  · obtain rfl := Option.some.inj ((hentries q hq).2.symm.trans hm)
    exact hvisits

end Balancer

end Relb
