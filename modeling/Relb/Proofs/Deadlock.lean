import Mathlib.Data.Fintype.Order
import Mathlib.Order.Fin.Basic
import Relb.Model.Locks
/-!
# When the threads of a bind can all wait

`getServer` locks `servers_lock` and then `peer_lock`, `cleanConnections` and `processMessage` the
other way round. Nobody locks `servers_lock` for writing while the threads run, so this cannot
hold them up. What is left are the queues and pipes: they are posted to under `peer_lock`, and who
takes from one of them posts to another one. So the threads only ever wait for each other in a ring
of two full ones.
-/

namespace Relb

open Lib

namespace LockCall

open ServerList

variable {ρ : Type*} [Preorder ρ] {r : Ranks ListLock Inbox ρ} {limit : Inbox → Nat}

/-- Nobody waits for `servers_lock`, and behind `peer_lock` only the queue of `ServerList` may come
in front. -/
structure Suitable (r : Ranks ListLock Inbox ρ) : Prop where
  servers : r.lock .servers = none
  peer : r.lock .peer ≠ none
  above : ∀ b, b ≠ .list → ∀ n k, r.buffer b = some n → r.lock .peer = some k → k < n

/-- The locks of a thread in `getServer`, and in a section of `peer_lock`. -/
def holding (servers peer : Option Hold) : ListLock → Option Hold
  | .servers => servers
  | .peer => peer

theorem holding_none : holding none none = fun _ => none := by
  funext l
  cases l <;> rfl

/-! ## What is posted under the locks -/

theorem forall_postParallel (s : ServerList) (p : Option Ptr) :
    ∀ a ∈ s.postParallelActions p, ∃ b, b ≠ Inbox.list ∧ a = .post b := by
  intro a ha
  unfold postParallelActions at ha
  split at ha
  · exact ⟨.admin, nofun, List.mem_singleton.mp ha⟩
  · cases ha

theorem forall_closePInfo (manager : Option ManagerId) :
    ∀ a ∈ closePInfoActions manager, ∃ b, b ≠ Inbox.list ∧ a = .post b := by
  intro a ha
  cases manager with
  | none => cases ha
  | some m => exact ⟨.pipe m, nofun, List.mem_singleton.mp ha⟩

theorem forall_announce (s : ServerList) :
    ∀ a ∈ s.announceActions, ∃ b, b ≠ Inbox.list ∧ a = .post b := by
  intro a ha
  unfold announceActions at ha
  split at ha
  · exact ⟨.admin, nofun, List.mem_singleton.mp ha⟩
  · cases ha

section Sections

variable {servers peer : Option Hold} (hr : Suitable r)

include hr

theorem fits_post {b : Inbox} (hb : b ≠ .list) :
    Threads.Fits r (holding servers peer) (.post b) where
  free _ hl := hl.elim nofun nofun
  owned _ hl := nomatch hl
  ranked _ hl := nomatch hl
  above n hn l k _ hk := by
    cases l with
    | servers => rw [hr.servers] at hk; cases hk
    | peer => exact hr.above b hb n k hn hk

theorem leads_posts {p : List LockAction} (hp : ∀ a ∈ p, ∃ b, b ≠ .list ∧ a = .post b) :
    Threads.Leads r (holding servers peer) (holding servers peer) p := by
  refine Threads.leads_of_fits fun a ha => ?_
  obtain ⟨b, hb, rfl⟩ := hp a ha
  exact ⟨rfl, fits_post hr hb⟩

theorem leads_serversSection :
    Threads.Leads r (holding none peer) (holding none peer) serversSection := by
  refine ⟨⟨fun l hl => ?_, nofun, nofun, fun n hn => ?_⟩,
    ⟨fun l hl => hl.elim nofun nofun, fun l hl => ?_, nofun, nofun⟩, ?_⟩
  · obtain rfl : ListLock.servers = l := by
      rcases hl with hl | hl <;> injection hl
    rfl
  · rw [Ranks.wait, hr.servers] at hn
    cases hn
  · injection hl with hl
    subst hl
    exact Option.some_ne_none _
  · funext l
    cases l <;> rfl

/-- A section of `peer_lock`. -/
theorem leads_peer {lock : LockAction} {p : List LockAction} {hold : Hold}
    (hlock : lock = .rdlock .peer ∧ hold = .reading ∨ lock = .wrlock .peer ∧ hold = .writing)
    (hp : Threads.Leads r (holding servers (some hold)) (holding servers (some hold)) p) :
    Threads.Leads r (holding servers none) (holding servers none)
      ([lock] ++ p ++ [.unlock .peer]) := by
  have hfits : Threads.Fits r (holding servers none) lock := by
    refine ⟨fun l hl => ?_, fun l hl => ?_, fun l hl => ?_, fun n _ l k hheld hk => ?_⟩
    · rcases hlock with ⟨rfl, -⟩ | ⟨rfl, -⟩ <;> rcases hl with hl | hl <;> cases hl <;> rfl
    · rcases hlock with ⟨rfl, -⟩ | ⟨rfl, -⟩ <;> cases hl
    · rcases hlock with ⟨rfl, -⟩ | ⟨rfl, -⟩ <;> cases hl
      exact hr.peer
    · cases l with
      | servers => rw [hr.servers] at hk; cases hk
      | peer => exact absurd rfl hheld
  have htaken : Threads.heldAfter (holding servers none) lock = holding servers (some hold) := by
    funext l
    rcases hlock with ⟨rfl, rfl⟩ | ⟨rfl, rfl⟩ <;> cases l <;> rfl
  rw [List.append_assoc]
  refine ⟨hfits, ?_⟩
  rw [htaken]
  refine hp.append ⟨⟨fun l hl => hl.elim nofun nofun, fun l hl => ?_, nofun, nofun⟩, ?_⟩
  · injection hl with hl
    exact hl ▸ Option.some_ne_none _
  · funext l
    cases l <;> rfl

/-! ## The calls -/

theorem leads_processMessage (s : ServerList) (msg : Message) :
    Threads.Leads r (holding none none) (holding none none) (s.processMessageActions msg) := by
  unfold processMessageActions
  refine leads_peer hr (.inl ⟨rfl, rfl⟩) ?_
  split
  · refine Threads.Leads.append (?_ : Threads.Leads r (holding none (some .reading)) _ _) ?_
    · split_ifs
      · rfl
      · exact leads_posts hr (forall_closePInfo _)
      · exact leads_posts hr (forall_postParallel s _)
    · split_ifs
      · exact leads_serversSection hr
      · rfl
  · rfl

theorem leads_cleanConnections (s : ServerList) :
    Threads.Leads r (holding none none) (holding none none) s.cleanConnectionsActions := by
  refine leads_peer hr (.inr ⟨rfl, rfl⟩) (Threads.leads_flatMap fun q => ?_)
  unfold cleanEntryActions
  split
  · exact (leads_serversSection hr).append (leads_posts hr (forall_postParallel s _))
  · rfl

theorem leads_purgeConnections (s : ServerList) :
    Threads.Leads r (holding none none) (holding none none) s.purgeConnectionsActions :=
  leads_peer hr (.inr ⟨rfl, rfl⟩) (Threads.leads_flatMap fun _ =>
    leads_posts hr (forall_closePInfo _))

theorem leads_setParallelList (s : ServerList) (jq : Bool) :
    Threads.Leads r (holding none none) (holding none none) (s.setParallelListActions jq) := by
  refine leads_peer hr (.inl ⟨rfl, rfl⟩) ?_
  split
  · refine leads_posts hr fun a ha => ?_
    obtain ⟨q, -, rfl⟩ := List.mem_map.mp ha
    exact ⟨.admin, nofun, rfl⟩
  · rfl

theorem leads_scan (s : ServerList) (found : SessionScan) :
    Threads.Leads r (holding servers none) (holding servers none) (s.scanActions found) := by
  refine leads_peer hr (.inl ⟨rfl, rfl⟩) ?_
  split
  · split
    · exact (leads_posts hr (forall_closePInfo _)).append
        (leads_posts hr (forall_postParallel s _))
    · rfl
  · rfl

theorem leads_recreate (s : ServerList) (created : Bool) :
    Threads.Leads r (holding servers none) (holding servers none) (s.recreateActions created) := by
  refine leads_peer hr (.inr ⟨rfl, rfl⟩) ?_
  split
  · exact leads_posts hr (forall_announce s)
  · rfl

theorem leads_assign (s : ServerList) (assigned : Bool) :
    Threads.Leads r (holding servers none) (holding servers none) (s.assignActions assigned) := by
  unfold assignActions
  split
  · refine (leads_posts hr (forall_announce s)).append ?_
    have hsection : Threads.Leads r (holding servers (some .writing))
        (holding servers (some .writing)) [] := rfl
    exact leads_peer hr (.inr ⟨rfl, rfl⟩) hsection
  · rfl

theorem leads_getServer (scan again last : ServerList) (clientIp : IpAddress)
    (clientPort : UInt16) (pcm : Option ManagerId) (now : Datetime) (addr parallelAddr : Ptr) :
    Threads.Leads r (holding none none) (holding none none)
      (getServerActions scan again last clientIp clientPort pcm now addr parallelAddr).1 := by
  unfold getServerActions
  have hassign : Threads.Leads r (holding (some .reading) none) (holding (some .reading) none) _ :=
    leads_assign hr last (last.assignServer clientIp clientPort pcm now addr parallelAddr).2.isSome
  have htaken : Threads.heldAfter (holding none none) (.rdlock .servers : LockAction) =
      holding (some .reading) none := by
    funext l
    cases l <;> rfl
  have hgiven : Threads.heldAfter (holding (some .reading) none)
      (.unlock .servers : LockAction) = holding none none := by
    funext l
    cases l <;> rfl
  refine Threads.Leads.append (?_ : Threads.Leads r (holding (some .reading) none) _ _) ?_
  · refine Threads.Leads.append (?_ : Threads.Leads r (holding (some .reading) none) _ _) ?_
    · refine ⟨⟨fun l hl => ?_, nofun, nofun, fun n hn => ?_⟩, htaken⟩
      · rcases hl with hl | hl <;> cases hl
        rfl
      · rw [Ranks.wait, hr.servers] at hn
        cases hn
    · split
      · rfl
      · split
        · dsimp only
          split
          · exact leads_scan hr _ _
          · split
            · exact (leads_scan hr _ _).append (leads_recreate hr _ _)
            · exact ((leads_scan hr _ _).append (leads_recreate hr _ _)).append hassign
          · exact (leads_scan hr _ _).append hassign
        · exact hassign
  · refine ⟨⟨fun l hl => hl.elim nofun nofun, fun l hl => ?_, nofun, nofun⟩, hgiven⟩
    injection hl with hl
    subst hl
    exact Option.some_ne_none _

/-- Every call takes its locks in the order of the ranks, and gives them back. -/
theorem nested_calls {i : ThreadId} {p : List LockAction} (hp : p ∈ calls i) :
    Threads.Nested r p := by
  rw [Threads.Nested, ← holding_none]
  have hlist : ∀ n : Nat, Threads.Leads r (holding none none) (holding none none)
      (List.replicate n (.post .list)) := by
    intro n
    refine Threads.leads_of_fits fun a ha => ?_
    obtain rfl := List.eq_of_mem_replicate ha
    refine ⟨rfl, ⟨fun l hl => hl.elim nofun nofun, nofun, nofun, fun n _ l k hheld _ => ?_⟩⟩
    cases l <;> exact absurd rfl hheld
  have htake : ∀ b : Inbox, Threads.Leads r (holding none none) (holding none none)
      [.take b] := by
    intro b
    exact ⟨⟨fun l hl => hl.elim nofun nofun, nofun, nofun, nofun⟩, rfl⟩
  cases hp with
  | setServer scan again last clientIp clientPort pcm now addr parallelAddr =>
      refine (leads_getServer hr scan again last clientIp clientPort _ now addr
        parallelAddr).append ?_
      split
      · exact leads_posts hr fun a ha => ⟨.pipe pcm, nofun, List.mem_singleton.mp ha⟩
      · rfl
  | setParallelList s jq => exact leads_setParallelList hr s jq
  | processMessage s msg => exact (htake .list).append (leads_processMessage hr s msg)
  | cleanConnections s => exact leads_cleanConnections hr s
  | purgeConnections s => exact leads_purgeConnections hr s
  | receive => exact htake .admin
  | ban | banAll | kick =>
      rw [List.map_const']
      exact hlist _
  | checkSocket m => exact htake (.pipe m)
  | iterate m t t' op msgs hop =>
      rw [List.map_const']
      exact hlist _

end Sections

/-! ## Ranks -/

/-- The queue of `ServerList` has room: who holds `peer_lock` waits for the web admin or a manager,
and these for nobody. -/
def listHasRoom : Ranks ListLock Inbox (Fin 2) where
  lock
    | .servers => none
    | .peer => some 0
  buffer
    | .list => none
    | .admin | .pipe _ => some 1

/-- Everything else has room: the others wait for `ServerList`, and it waits for `peer_lock`. -/
def othersHaveRoom : Ranks ListLock Inbox (Fin 2) where
  lock
    | .servers => none
    | .peer => some 1
  buffer
    | .list => some 0
    | .admin | .pipe _ => none

theorem ordered_listHasRoom : Threads.Ordered listHasRoom consumer calls where
  nested i p hp := by
    refine nested_calls ⟨rfl, Option.some_ne_none _, fun b hb n k hn hk => ?_⟩ hp
    obtain rfl : 0 = k := Option.some.inj hk
    cases b with
    | list => exact absurd rfl hb
    | admin | pipe m =>
        obtain rfl := Option.some.inj hn
        decide
  above b k hk p hp a ha n hn := by
    -- the web admin and the managers post to the queue of `ServerList` only
    have hwait : ∀ i, i ≠ ThreadId.accept → i ≠ .list → p ∈ calls i →
        listHasRoom.wait a = none := by
      intro i haccept hlist hp
      cases hp with
      | setServer | setParallelList => exact absurd rfl haccept
      | processMessage | cleanConnections | purgeConnections => exact absurd rfl hlist
      | receive | checkSocket =>
          obtain rfl := List.mem_singleton.mp ha
          rfl
      | ban | banAll | kick | iterate =>
          obtain ⟨x, -, rfl⟩ := List.mem_map.mp ha
          rfl
    cases b with
    | list => cases hk
    | admin =>
        rw [hwait .admin nofun nofun hp] at hn
        cases hn
    | pipe m =>
        rw [hwait (.manager m) nofun nofun hp] at hn
        cases hn

/-- The thread of `ServerList` does not post to its own queue. -/
theorem post_list_notMem {p : List LockAction} (hp : p ∈ calls .list) : .post .list ∉ p := by
  have hclose : ∀ manager, .post .list ∉ closePInfoActions manager := by
    intro manager hmem
    obtain ⟨b, hb, hpost⟩ := forall_closePInfo manager _ hmem
    injection hpost with hpost
    exact hb hpost.symm
  have hparallel : ∀ (s : ServerList) p, .post .list ∉ s.postParallelActions p := by
    intro s p hmem
    obtain ⟨b, hb, hpost⟩ := forall_postParallel s p _ hmem
    injection hpost with hpost
    exact hb hpost.symm
  have hservers : (.post .list : LockAction) ∉ serversSection := by decide
  cases hp with
  | processMessage s msg =>
      unfold processMessageActions
      dsimp only
      split
      · split_ifs <;> simp [hclose, hparallel, hservers]
      · simp
  | cleanConnections s =>
      have hentry : ∀ q, .post .list ∉ s.cleanEntryActions q := by
        intro q
        unfold cleanEntryActions
        split
        · simp [hparallel, hservers]
        · simp
      simp [cleanConnectionsActions, hentry]
  | purgeConnections s => simp [purgeConnectionsActions, hclose]

theorem ordered_othersHaveRoom : Threads.Ordered othersHaveRoom consumer calls where
  nested i p hp := by
    refine nested_calls ⟨rfl, Option.some_ne_none _, fun b hb n k hn hk => ?_⟩ hp
    cases b with
    | list => exact absurd rfl hb
    | admin | pipe m => cases hn
  above b k hk p hp a ha n hn := by
    cases b with
    | admin | pipe m => cases hk
    | list =>
        obtain rfl := Option.some.inj hk
        have hrank : n = 1 ∨ a = .post .list := by
          cases a with
          | rdlock l | wrlock l =>
              cases l with
              | servers => cases hn
              | peer => exact .inl (Option.some.inj hn).symm
          | post b =>
              cases b with
              | list => exact .inr rfl
              | admin | pipe m => cases hn
          | unlock l | take b => cases hn
        rcases hrank with rfl | rfl
        · decide
        · exact absurd ha (post_list_notMem hp)

/-! ## A ring -/

namespace Sample

def entry : PeerInfo where
  addr := 1
  srcIp := ⟨10, 0, 0, 1⟩
  srcPort := 1000
  dstIp := ⟨10, 0, 0, 2⟩
  dstPort := 80
  status := statusConnectionEstablished.toUInt8
  parallel := some 2
  manager := some 0
  created := 0
  modified := 0

def list : ServerList := { (ServerList.create 0).attachAdmin with peerList := [entry] }

def copies : Ptr → Option PeerInfo :=
  fun p => if p = 2 then some { entry with parallel := some 1 } else none

def admin : AdminHTTPServer := { AdminHTTPServer.create with peerList := [2] }

def manager : ThreadedConnectionManager :=
  (ThreadedConnectionManager.create.addConnectionPeer (.create (fun _ _ => 0)
    (some ⟨5, ⟨10, 0, 0, 1⟩, 1000⟩) (some ⟨6, ⟨10, 0, 0, 2⟩, 80⟩) true
      (some 1))).closePInfo (some 1)

end Sample

theorem report_mem : [.post .list] ∈ calls (.manager 0) := by
  have hop : ∃ t msg, Sample.manager.perform .serveRequest = some (t, [msg]) := ⟨_, _, rfl⟩
  obtain ⟨t, msg, hop⟩ := hop
  exact .iterate 0 _ t .serveRequest [msg] hop

theorem kick_mem : [.post .list] ∈ calls .admin :=
  .kick Sample.admin Sample.copies ⟨10, 0, 0, 1⟩ 1000

/-- What `ServerList` has left to do when it is going to forward such a report to the web admin. -/
def forward : List LockAction := [.post .admin, .rdlock .servers, .unlock .servers, .unlock .peer]

theorem forward_mem : .take .list :: .rdlock .peer :: forward ∈ calls .list :=
  .processMessage Sample.list ⟨statusServerDisconnectedOk, 1⟩

/-- So many messages wait in the two queues, and none in a pipe. -/
def queued (list admin : Nat) : Inbox → Nat
  | .list => list
  | .admin => admin
  | .pipe _ => 0

def quiet (fill : Inbox → Nat) : Threads ThreadId ListLock Inbox :=
  ⟨fun _ => [], fun _ _ => none, fill⟩

theorem update_queued_list (l a x : Nat) :
    Function.update (queued l a) .list x = queued x a := by
  funext b
  cases b <;> rfl

theorem update_queued_admin (l a x : Nat) :
    Function.update (queued l a) .admin x = queued l x := by
  funext b
  cases b <;> rfl

section Ring

variable {l a : Nat}

/-- The thread of `ServerList` has taken a report. -/
def forwarding (l a : Nat) : Threads ThreadId ListLock Inbox :=
  .alone .list (holding none (some .reading)) (queued l a) forward

theorem reach_forwarding (h : Reachable limit (quiet (queued (l + 1) a))) :
    Reachable limit (forwarding l a) := by
  have hstarted := h.next trivial (.start _ rfl forward_mem fun b hb => ?_)
  · have hbegin : (quiet (queued (l + 1) a)).begin .list
        (.take .list :: .rdlock .peer :: forward) =
          .alone .list (fun _ => none) (queued (l + 1) a)
            (.take .list :: .rdlock .peer :: forward) := by
      unfold quiet Threads.begin Threads.alone
      rw [Function.update_eq_self_iff.mpr rfl]
    rw [hbegin] at hstarted
    have htaken := Threads.reach_alone hstarted nofun nofun nofun
    have hlocked := Threads.reach_alone htaken (fun _ _ => nofun) nofun nofun
    have hfill : Threads.fillAfter (Threads.fillAfter (queued (l + 1) a)
        (.take .list : LockAction)) (.rdlock .peer : LockAction) = queued l a :=
      update_queued_list _ _ _
    have hheld : Threads.heldAfter (Threads.heldAfter (fun _ => none)
        (.take .list : LockAction)) (.rdlock .peer : LockAction) =
          holding none (some .reading) := by
      funext l
      cases l <;> rfl
    rw [hfill, hheld] at hlocked
    exact hlocked
  · obtain rfl : Inbox.list = b := by injection Option.some.inj hb
    exact Nat.succ_pos l

theorem reach_forwarded (h : Reachable limit (quiet (queued (l + 1) a)))
    (hroom : a < limit .admin) : Reachable limit (quiet (queued l (a + 1))) := by
  have hposted := Threads.reach_alone (reach_forwarding h) nofun nofun fun b hb => by
    obtain rfl : Inbox.admin = b := by injection hb
    exact hroom
  have hlocked := Threads.reach_alone hposted (fun l hl => by cases hl; nofun) nofun nofun
  have hunlocked := Threads.reach_alone hlocked nofun nofun nofun
  have hdone := Threads.reach_alone hunlocked nofun nofun nofun
  have hfill : forward.foldl Threads.fillAfter (queued l a) = queued l (a + 1) :=
    update_queued_admin _ _ _
  have hheld : forward.foldl Threads.heldAfter (holding none (some .reading)) =
      fun _ => none := by
    funext l
    cases l <;> rfl
  change Reachable limit (.alone .list (forward.foldl Threads.heldAfter _)
    (forward.foldl Threads.fillAfter (queued l a)) []) at hdone
  rw [hfill, hheld, Threads.alone_nil] at hdone
  exact hdone

theorem reach_reported (h : Reachable limit (quiet (queued l a))) (hroom : l < limit .list) :
    Reachable limit (quiet (queued (l + 1) a)) := by
  have hposted := Threads.reach_post h rfl report_mem hroom
  have hfill : Function.update (queued l a) .list (l + 1) = queued (l + 1) a :=
    update_queued_list _ _ _
  change Reachable limit { quiet (queued l a) with
    fill := Function.update (queued l a) .list (l + 1) } at hposted
  rw [hfill] at hposted
  exact hposted

/-- `ServerList` forwards a message to the web admin, and this passes a request to `ServerList`. -/
def ring (l a : Nat) : Threads ThreadId ListLock Inbox :=
  (forwarding l a).begin .admin [.post .list]

theorem reach_ring : Reachable (fun _ => 1) (ring 1 1) := by
  have hnone : queued 0 0 = fun _ => 0 := by
    funext b
    cases b <;> rfl
  have hstart : Reachable (fun _ => 1) (quiet (queued 0 0)) := by
    rw [hnone]
    exact .start rfl
  have hreported := reach_reported hstart Nat.one_pos
  have hforwarded := reach_forwarded hreported Nat.one_pos
  have hagain := reach_reported hforwarded Nat.one_pos
  -- the message that has been taken makes room for one more report
  have hposted := Threads.reach_post (reach_forwarding hagain) (i := .manager 0) (b := .list) rfl
    report_mem Nat.one_pos
  have hfill : Function.update (queued 0 1) .list 1 = queued 1 1 := update_queued_list _ _ _
  change Reachable _ { forwarding 0 1 with
    fill := Function.update (queued 0 1) .list 1 } at hposted
  rw [hfill] at hposted
  exact hposted.next trivial (.start _ rfl kick_mem nofun)

theorem stuck_ring : (ring (limit .list) (limit .admin)).Stuck limit consumer where
  started := ⟨.admin, nofun⟩
  waiting i x rest hi hready := by
    cases i with
    | accept => cases hi
    | manager m => cases hi
    | list =>
        change forward = x :: rest at hi
        injection hi with hx
        subst hx
        exact Nat.lt_irrefl (limit .admin) hready.1
    | admin =>
        change [.post .list] = x :: rest at hi
        injection hi with hx
        subst hx
        exact Nat.lt_irrefl (limit .list) hready.1
  consumers b hb := by
    cases b with
    | list => nofun
    | admin => nofun
    | pipe m => exact absurd hb (Nat.lt_irrefl 0)

end Ring

/-! ## Main result -/

/-- When all threads that are in a call wait for each other, the queue of `ServerList` is full, and
so is the one of the web admin or the pipe of a manager. -/
theorem full_of_stuck (hlimit : ∀ b, 0 < limit b) {s : Threads ThreadId ListLock Inbox}
    (h : Reachable limit s) (hstuck : s.Stuck limit consumer) :
    limit .list ≤ s.fill .list ∧ ∃ b, b ≠ .list ∧ limit b ≤ s.fill b := by
  constructor
  · by_contra hroom
    refine Threads.not_stuck ordered_listHasRoom hlimit h (fun b hb => ?_) hstuck
    cases b with
    | list => omega
    | admin | pipe m => cases hb
  · by_contra hroom
    refine Threads.not_stuck ordered_othersHaveRoom hlimit h (fun b hb => ?_) hstuck
    by_contra hfull
    cases b with
    | list => cases hb
    | admin => exact hroom ⟨.admin, nofun, Nat.le_of_not_lt hfull⟩
    | pipe m => exact hroom ⟨.pipe m, nofun, Nat.le_of_not_lt hfull⟩

theorem full_of_stuck_ring : (fun _ => 1 : Inbox → Nat) .list ≤ (ring 1 1).fill .list ∧
    ∃ b, b ≠ .list ∧ (fun _ => 1 : Inbox → Nat) b ≤ (ring 1 1).fill b :=
  full_of_stuck (fun _ => Nat.one_pos) reach_ring stuck_ring

end LockCall

end Relb
