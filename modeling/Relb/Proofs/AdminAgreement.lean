import Relb.Proofs.AdminMirror
/-!
# The web admin agrees with `ServerList`

The two sides run side by side, with the queue of the admin between them. `Synced` says what
the admin would show once it had processed the queue, whatever the clock will be then: the
same as `ServerList` shows now. `InStep` keeps clear of the four ways to part: a session armed
again, a new entry beside an ended one, an end that only the last purge makes an entry go for,
and a cleanup that finds ended entries.
-/

namespace Relb

open Lib

open ConnectionPeer (Report report)

/-- `ServerList` with its traffic, and the web admin. -/
structure Watched where
  traffic : Traffic
  admin : AdminHTTPServer

namespace Watched

variable {w w' : Watched} {queue : List Message} {t : Traffic} {now : Datetime}

abbrev list (w : Watched) : ServerList := w.traffic.list

def receive (w : Watched) (now : Datetime) : Option Watched :=
  match w.list.parallelList with
  | some (msg :: queue) =>
      let r := w.admin.processMessage w.list.parallels msg now
      some ⟨⟨{ w.list with parallelList := some queue, parallels := r.2 },
        w.traffic.connections⟩, r.1⟩
  | _ => none

inductive Op
  | traffic (op : Traffic.Op)
  | receive (now : Datetime)

def perform (w : Watched) : Op → Option Watched
  | .traffic op => (w.traffic.perform op).map fun t => ⟨t, w.admin⟩
  | .receive now => w.receive now

/-- Start-up, which configures every server on both sides. -/
inductive Configured : ServerList → AdminHTTPServer → Prop
  | create (now : Datetime) : Configured (.create now) .create
  | addServer {s : ServerList} {a : AdminHTTPServer} (ip : IpAddress) (port : UInt16)
      (weight maxConnections : Int) (now now' : Datetime) : Configured s a →
      Configured (s.addServer ip port weight maxConnections now)
        (a.addServer ip port weight maxConnections now')
  | addFilter {s : ServerList} {a : AdminHTTPServer} (f : FilterInfo) :
      Configured s a → Configured (s.addFilter f) a
  | setServerRetry {s : ServerList} {a : AdminHTTPServer} (seconds : Int) :
      Configured s a → Configured (s.setServerRetry seconds) a
  | attachAdmin {s : ServerList} {a : AdminHTTPServer} :
      Configured s a → Configured s.attachAdmin a

/-- The admin is attached, and no two servers have the same address. -/
structure Started (w : Watched) : Prop where
  configured : Configured w.list w.admin
  connections : w.traffic.connections = []
  attached : w.list.parallelList = some []
  ips : (w.list.serversList.map ServerInfo.ip).Nodup

/-- The states of the runs whose steps all meet `guard`. -/
def ReachableBy (guard : Watched → Op → Prop) : Watched → Prop :=
  Reach (fun w op w' => w.perform op = some w') guard Started

/-! ## What the queue will lead to -/

/-- The admin shows what `ServerList` shows, once it has processed the queue. -/
structure Synced (w : Watched) (queue : List Message) : Prop where
  queued : w.list.parallelList = some queue
  orderly : w.list.Orderly
  announced : ∀ m ∈ queue, (w.list.parallels m.param).isSome
  known : w.admin.Allocated w.list.parallels
  mirrors : ∀ log : List (Message × Datetime), log.map Prod.fst = queue →
    Mirrors w.list (w.admin.replay w.list.parallels log).2 (w.admin.replay w.list.parallels log).1

namespace Synced

theorem of_eq (h : w.Synced queue) (hservers : t.list.serversList = w.list.serversList)
    (hpeers : t.list.peerList = w.list.peerList) (hlink : t.list.link = w.list.link) :
    Synced ⟨t, w.admin⟩ queue := by
  obtain ⟨hqueue, hparallels⟩ := Prod.mk.inj hlink
  refine ⟨hqueue.trans h.queued, ?_, ?_, ?_, fun log hlog => ?_⟩
  · exact h.orderly.of_eq hservers hpeers fun p hp => hparallels ▸ hp
  · exact fun m hm => hparallels ▸ h.announced m hm
  · exact hparallels ▸ h.known
  · change Mirrors t.list (w.admin.replay t.list.parallels log).2
      (w.admin.replay t.list.parallels log).1
    rw [hparallels]
    exact (h.mirrors log hlog).of_eq hservers hpeers

theorem post (h : w.Synced queue) {msg : Message}
    (hqueue : t.list.parallelList = some (queue ++ [msg])) (horderly : t.list.Orderly)
    (hcopies : ∀ p, (w.list.parallels p).isSome → (t.list.parallels p).isSome)
    (hmsg : (t.list.parallels msg.param).isSome)
    (hmirrors : ∀ log : List (Message × Datetime), log.map Prod.fst = queue → ∀ now,
      Mirrors t.list
        ((w.admin.replay t.list.parallels log).1.processMessage
          (w.admin.replay t.list.parallels log).2 msg now).2
        ((w.admin.replay t.list.parallels log).1.processMessage
          (w.admin.replay t.list.parallels log).2 msg now).1) :
    Synced ⟨t, w.admin⟩ (queue ++ [msg]) := by
  refine ⟨hqueue, horderly, fun m hm => ?_, fun p hp => hcopies p (h.known p hp),
    fun log hlog => ?_⟩
  · rcases List.mem_append.mp hm with hm | hm
    · exact hcopies _ (h.announced m hm)
    · rw [List.mem_singleton] at hm
      exact hm ▸ hmsg
  · obtain ⟨before, last, rfl, hbefore, hlast⟩ := List.map_eq_append_iff.mp hlog
    obtain ⟨⟨_, now⟩, rfl, rfl⟩ := List.map_eq_singleton_iff.mp hlast
    have hafter := hmirrors before hbefore now
    change Mirrors t.list (w.admin.replay t.list.parallels (before ++ [(_, now)])).2
      (w.admin.replay t.list.parallels (before ++ [(_, now)])).1
    rw [AdminHTTPServer.replay_append]
    exact hafter

theorem receive {msg : Message} (h : w.Synced (msg :: queue)) (hop : w.receive now = some w') :
    w'.Synced queue := by
  simp only [Watched.receive, h.queued, Option.some.injEq] at hop
  subst hop
  have hcopies : ∀ p, ((w.admin.processMessage w.list.parallels msg now).2 p).isSome =
      (w.list.parallels p).isSome := fun p => AdminHTTPServer.isSome_processMessage p
  refine ⟨rfl, ?_, fun m hm => ?_, ?_, fun log hlog => ?_⟩
  · exact h.orderly.of_eq rfl rfl fun p hp => (hcopies p).trans hp
  · exact (hcopies m.param).trans (h.announced m (List.mem_cons_of_mem _ hm))
  · exact h.known.processMessage (h.announced msg List.mem_cons_self) now
  · have hbefore := h.mirrors ((msg, now) :: log) (by rw [List.map_cons, hlog])
    rw [AdminHTTPServer.replay_cons] at hbefore
    exact hbefore.of_eq rfl rfl

end Synced

/-! ## Steps -/

/-- Nothing is armed again and a client gets a new entry only beside no ended one; an end from
before the last purge has another connection of its client left; and there is nothing to clean. -/
def InStep (w : Watched) : Op → Prop
  | .traffic (.connect clientIp clientPort _ now _ _) =>
      w.list.reusedPeer clientIp clientPort now = none ∧
        (w.list.NoSession clientIp now →
          (w.list.assignment clientIp clientPort now).isSome = true →
            ∀ q ∈ w.list.peerList, ServerList.isLostOf clientIp q = false)
  | .traffic (.message i id _) =>
      ∀ c index pinfo, w.traffic.connections[i]? = some c →
        w.list.peerList[index]? = some pinfo → pinfo.addr = c.addr →
        report id = some .failed ∨ report id = some .ended →
        pinfo.created < w.list.lastConnectionsCleanup →
          w.list.otherConnected index pinfo = true
  | .traffic .cleanConnections => ∀ q ∈ w.list.peerList, q.notConnected = false
  | _ => True

theorem synced_connect (h : w.Synced queue) {clientIp : IpAddress} {clientPort : UInt16}
    {pcm : Option ManagerId} {addr parallelAddr : Ptr}
    (hguard : w.InStep (.traffic (.connect clientIp clientPort pcm now addr parallelAddr)))
    (hop : w.traffic.connect clientIp clientPort pcm now addr parallelAddr = some t) :
    ∃ queue, Synced ⟨t, w.admin⟩ queue := by
  unfold Traffic.connect at hop
  split at hop
  · rename_i hnew
    obtain ⟨-, -, hfresh⟩ := hnew
    obtain rfl := Option.some.inj hop
    have ho := w.list.getServer_outcome clientIp clientPort pcm now addr parallelAddr
    generalize w.list.getServer clientIp clientPort pcm now addr parallelAddr = o at ho ⊢
    cases hq : o.2 with
    | none =>
        obtain ⟨last, hsame⟩ := ho.refuses hq
        refine ⟨queue, h.of_eq ?_ ?_ ?_⟩ <;> rw [hsame]
        rfl
    | some q =>
        obtain ⟨i, he⟩ := h.orderly.entered ho hq h.queued hguard.1 hguard.2
        obtain ⟨hqueue, hparallels⟩ := Prod.mk.inj (he.announced queue h.queued)
        have hnew : (o.1.parallels parallelAddr).isSome := by
          rw [hparallels, Function.update_self]
          rfl
        refine ⟨_, h.post hqueue (h.orderly.enter he h.queued hfresh) (fun p hp => ?_) hnew
          fun log hlog now => ?_⟩
        · exact hparallels ▸ ServerList.isSome_update hp _
        · have hmsgs : ∀ m ∈ log, (w.list.parallels m.1.param).isSome := fun m hm =>
            h.announced m.1 (hlog ▸ List.mem_map_of_mem hm)
          have hreplay : w.admin.replay o.1.parallels log =
              ((w.admin.replay w.list.parallels log).1,
                Function.update (w.admin.replay w.list.parallels log).2 parallelAddr
                  (some (ServerList.copyAt q parallelAddr))) := by
            rw [hparallels]
            exact AdminHTTPServer.replay_update h.known hfresh _ hmsgs
          dsimp only
          rw [hreplay]
          exact (h.mirrors log hlog).announce h.orderly he hfresh now
  · cases hop

theorem synced_message (h : w.Synced queue) {i : Nat} {id : UInt32}
    (hguard : w.InStep (.traffic (.message i id now)))
    (hop : w.traffic.message i id now = some t) : ∃ queue, Synced ⟨t, w.admin⟩ queue := by
  obtain ⟨c, hc, hlist, hsent⟩ := Traffic.message_cases hop
  rcases ServerList.processMessage_cases w.list ⟨id, c.addr⟩ now with
    ⟨-, hsame⟩ | ⟨index, pinfo, hq, haddr, hmsg⟩
  · rw [hsame] at hlist
    exact ⟨queue, h.of_eq (by rw [hlist]) (by rw [hlist]) (by rw [hlist])⟩
  · have hreport : id = statusPeerConnectionCancelled ∨ ∃ r, report id = some r := by
      rcases hsent with ⟨hid, -⟩ | ⟨hr, -⟩ | ⟨⟨hr, -⟩ | ⟨hr, -⟩, -⟩
      · exact .inl hid
      · exact .inr ⟨_, hr⟩
      · exact .inr ⟨_, hr⟩
      · exact .inr ⟨_, hr⟩
    rcases hreport with rfl | ⟨r, hr⟩
    · rw [ServerList.processMessage_cancelled] at hlist
      exact ⟨queue, h.of_eq (by rw [hlist]) (by rw [hlist]) (by rw [hlist])⟩
    · obtain ⟨p, hp, hsome⟩ := h.orderly.copies pinfo (List.mem_of_getElem? hq)
      have hrecord := ServerList.link_recordMessage h.queued hr hp index now
      have hlink : t.list.link = (some (queue ++ [⟨id, p⟩]), w.list.parallels) := by
        rw [hlist, hmsg, ServerList.link_countMessage]
        exact hrecord
      obtain ⟨hqueue, hparallels⟩ := Prod.mk.inj hlink
      have horderly : t.list.Orderly := by
        rw [hlist, hmsg]
        exact h.orderly.report hq hr (congrArg Prod.snd hrecord)
      refine ⟨_, h.post hqueue horderly (fun p hp => hparallels ▸ hp) (hparallels ▸ hsome)
        fun log hlog now' => ?_⟩
      rw [hparallels, hlist, hmsg]
      refine (h.mirrors log hlog).report h.orderly.nodup hq hr hp (fun hest hold => ?_) now now'
      exact hguard c index pinfo hc hq haddr (ConnectionPeer.failed_or_ended hr hest) hold

theorem synced_perform (h : ∃ queue, w.Synced queue) {op : Op} (hguard : w.InStep op)
    (hop : w.perform op = some w') : ∃ queue, w'.Synced queue := by
  obtain ⟨queue, h⟩ := h
  cases op with
  | receive now =>
      change w.receive now = some w' at hop
      cases queue with
      | nil => simp [Watched.receive, h.queued] at hop
      | cons msg queue => exact ⟨queue, h.receive hop⟩
  | traffic op =>
      obtain ⟨t, ht, rfl⟩ := Option.map_eq_some_iff.mp hop
      cases op with
      | connect => exact synced_connect h hguard ht
      | message i id now => exact synced_message h hguard ht
      | cleanConnections =>
          obtain rfl := Option.some.inj ht
          have hsame := ServerList.cleanConnections_of_active hguard
          exact ⟨queue, h.of_eq (congrArg _ hsame) (congrArg _ hsame) (congrArg _ hsame)⟩
      | purgeConnections now =>
          obtain rfl := Option.some.inj ht
          exact ⟨queue, h.of_eq (ServerList.serversList_purgeConnections _ _)
            (ServerList.peerList_purgeConnections _ _) (ServerList.link_purgeConnections _ _)⟩

theorem Configured.left {s : ServerList} {a : AdminHTTPServer} (h : Configured s a) :
    ServerList.Configured s := by
  induction h with
  | create now => exact .create now
  | addServer ip port weight maxConnections now now' _ ih => exact .addServer _ _ _ _ _ ih
  | addFilter f _ ih => exact .addFilter f ih
  | setServerRetry seconds _ ih => exact .setServerRetry seconds ih
  | attachAdmin _ ih => exact .attachAdmin ih

theorem Configured.mirrors {s : ServerList} {a : AdminHTTPServer} (h : Configured s a) :
    Mirrors s s.parallels a ∧ a.peerList = [] := by
  induction h with
  | create now => exact ⟨⟨rfl, rfl⟩, rfl⟩
  | addServer ip port weight maxConnections now now' _ ih =>
      obtain ⟨ih, hnone⟩ := ih
      refine ⟨⟨?_, ih.peers⟩, hnone⟩
      simp only [ServerList.addServer, AdminHTTPServer.addServer, List.map_append, ih.servers]
      rfl
  | addFilter f _ ih => exact ⟨ih.1.of_eq rfl rfl, ih.2⟩
  | setServerRetry seconds _ ih => exact ⟨ih.1.of_eq rfl rfl, ih.2⟩
  | attachAdmin _ ih => exact ⟨ih.1.of_eq rfl rfl, ih.2⟩

theorem synced_started (h : w.Started) : w.Synced [] := by
  obtain ⟨hmirrors, hnone⟩ := h.configured.mirrors
  have hfresh := h.configured.left.fresh
  refine ⟨h.attached, ⟨h.ips, ?_, ?_, ?_, ?_, fun j srv hsrv => ?_⟩, ?_, ?_, fun log hlog => ?_⟩
  · simp [hfresh.peerList]
  · simp [hfresh.peerList]
  · simp [hfresh.peerList]
  · simp [hfresh.peerList]
  · obtain ⟨-, -, -, -, hdisconnected⟩ := hfresh.servers srv (List.mem_of_getElem? hsrv)
    simp [hfresh.peerList, hdisconnected]
  · simp
  · simp [AdminHTTPServer.Allocated, hnone]
  · rw [List.map_eq_nil_iff.mp hlog]
    exact hmirrors

end Watched

def ServerInfo.counters (srv : ServerInfo) : (IpAddress × UInt16) × Int × Int × Int × Int :=
  (srv.address, srv.connecting, srv.connected, srv.finished, srv.disconnected)

namespace Watched

/-- Once its queue is empty, the admin counts like `ServerList`. -/
theorem admin_agrees (hw : ReachableBy InStep w) (hempty : w.list.parallelList = some []) :
    w.admin.serverList.map ServerInfo.counters =
      w.list.serversList.map ServerInfo.counters := by
  have hsynced : ∃ queue, w.Synced queue := by
    refine Reach.invariant (I := fun w => ∃ queue, Synced w queue) ?_ ?_ hw
    · exact fun w hstart => ⟨[], synced_started hstart⟩
    · exact fun w op w' h hguard hstep => synced_perform h hguard hstep
  obtain ⟨queue, h⟩ := hsynced
  obtain rfl : queue = [] := Option.some.inj (h.queued.symm.trans hempty)
  have hservers := congrArg (List.map ServerInfo.counters) (h.mirrors [] rfl).servers
  rw [List.map_map, List.map_map] at hservers
  exact hservers

namespace Sample

open ServerList.Sample (client server1)

def start : Watched :=
  ⟨⟨((ServerList.create 0).addServer server1 80 1 0 0).attachAdmin, []⟩,
    AdminHTTPServer.create.addServer server1 80 1 0 0⟩

theorem started_start : Started start :=
  ⟨.attachAdmin (.addServer _ _ _ _ _ _ (.create 0)), rfl, rfl, by decide⟩

def established : List Op :=
  [.traffic (.connect client 5000 none 10 100 200),
    .traffic (.message 0 statusConnectionEstablished 11)]

def ended : List Op := established ++ [.traffic (.message 0 statusServerDisconnectedOk 12)]

def shown : List Op := ended ++ [.receive 13, .receive 14, .receive 15]

def cleaned : List Op :=
  ended ++ [.traffic .cleanConnections, .receive 13, .receive 14, .receive 15, .receive 16]

theorem guarded_shown : Guarded perform InStep start shown := by
  have hrecent : (established.foldlM perform start).all fun w =>
      w.list.peerList.all fun q => w.list.lastConnectionsCleanup ≤ q.created := by decide +kernel
  refine ⟨⟨by decide +kernel, fun _ _ q hq => (nomatch hq)⟩, fun w hw => ⟨?_, fun w' hw' => ⟨?_,
    fun _ _ => ⟨trivial, fun _ _ => ⟨trivial, fun _ _ => ⟨trivial, fun _ _ => trivial⟩⟩⟩⟩⟩⟩
  · intro c index pinfo _ _ _ hend
    exact absurd hend (by decide)
  · intro c index pinfo _ hq _ _ hold
    have hrun : established.foldlM perform start = some w' := by
      rw [established, List.foldlM_cons, hw, Option.bind_eq_bind, Option.bind_some,
        List.foldlM_cons, hw']
      rfl
    rw [hrun, Option.all_some, List.all_eq_true] at hrecent
    have hle := of_decide_eq_true (hrecent pinfo (List.mem_of_getElem? hq))
    exact absurd hold (Int.not_lt.mpr hle)

end Sample

theorem admin_agrees_shown : ∃ w, Sample.shown.foldlM perform Sample.start = some w ∧
    w.list.serversList.map (·.finished) = [1] ∧
      w.admin.serverList.map ServerInfo.counters =
        w.list.serversList.map ServerInfo.counters := by
  have hsome : (Sample.shown.foldlM perform Sample.start).isSome := by decide +kernel
  obtain ⟨w, hw⟩ := Option.isSome_iff_exists.mp hsome
  have hstate : (Sample.shown.foldlM perform Sample.start).all fun w =>
      w.list.serversList.map (·.finished) = [1] ∧ w.list.parallelList = some [] := by
    decide +kernel
  rw [hw, Option.all_some, decide_eq_true_eq] at hstate
  exact ⟨w, hw, hstate.1, admin_agrees
    ((Reach.start Sample.started_start).foldlM Sample.guarded_shown hw) hstate.2⟩

/-- The admin counts a cleaned entry off the connected ones. -/
theorem admin_differs_cleaned : ¬∀ w, ReachableBy anyStep w → w.list.parallelList = some [] →
    w.admin.serverList.map ServerInfo.counters =
      w.list.serversList.map ServerInfo.counters := by
  intro h
  have hsome : (Sample.cleaned.foldlM perform Sample.start).isSome := by decide +kernel
  obtain ⟨w, hw⟩ := Option.isSome_iff_exists.mp hsome
  have hstate : (Sample.cleaned.foldlM perform Sample.start).all fun w =>
      w.list.parallelList = some [] ∧
        w.admin.serverList.map ServerInfo.counters ≠
          w.list.serversList.map ServerInfo.counters := by
    decide +kernel
  rw [hw, Option.all_some, decide_eq_true_eq] at hstate
  exact hstate.2 (h w ((Reach.start Sample.started_start).foldlM (guarded_anyStep _ _ _) hw)
    hstate.1)

end Watched

end Relb
