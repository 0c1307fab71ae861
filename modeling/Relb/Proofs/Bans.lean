import Relb.Proofs.AdminAgreement
import Relb.Proofs.BindBasics
import Relb.Proofs.SessionReuse
/-!
# What a ban does

`processMessage` has no case of its own for the two bans. It records the id of the request as
the status of the entry and forwards it, and the admin then takes it for the notice that an
entry has been deleted: the ids of the two share their bit.
-/

namespace Relb

open Lib

open ConnectionPeer (Report report)

def banIds : List UInt32 := [statusPeerConnectionBanThis, statusPeerConnectionBanAll]

namespace ServerList

variable {s : ServerList} {q : PeerInfo} {id : UInt32} {now : Datetime} {x : Ptr}

/-- The entry that a message for the address `x` is about. -/
def named (s : ServerList) (x : Ptr) : Option PeerInfo :=
  s.peerList[s.peerList.findIdx fun q => q.addr == x]?

theorem ban_spec (hid : id ∈ banIds) :
    id ∈ postedIds ∧ report id = none ∧ id.toUInt8 ≠ statusConnectionEstablished.toUInt8 ∧
      ¬(id = statusPeerConnectionCancelled ∨ id = statusPeerConnectionKicked) ∧
      id.toUInt8.toUInt32 = id := by
  have hall : ∀ id ∈ banIds,
      id ∈ postedIds ∧ report id = none ∧ id.toUInt8 ≠ statusConnectionEstablished.toUInt8 ∧
        ¬(id = statusPeerConnectionCancelled ∨ id = statusPeerConnectionKicked) ∧
        id.toUInt8.toUInt32 = id := List.all_iff_forall_prop.mp (by decide)
  exact hall id hid

theorem processMessage_ban (hid : id ∈ banIds) (hq : s.named x = some q) (now : Datetime) :
    s.processMessage ⟨id, x⟩ now =
      (s.modifyPeer (s.peerList.findIdx fun q => q.addr == x)
        (·.setStatus id.toUInt8 now)).postParallel id q.parallel := by
  obtain ⟨hposted, hreport, -, hrecorded, hbyte⟩ := ban_spec hid
  unfold named at hq
  unfold processMessage
  dsimp only
  rw [hq]
  dsimp only
  rw [countMessage_of_none hposted hreport, recordMessage, if_neg fun h => hrecorded (.inl h),
    if_neg fun h => hrecorded (.inr h), hbyte]

theorem named_processMessage_ban (hid : id ∈ banIds) (hq : s.named x = some q) (now : Datetime) :
    (s.processMessage ⟨id, x⟩ now).named x = some (q.setStatus id.toUInt8 now) := by
  have hsame : ∀ l : List PeerInfo, (l.findIdx fun q => q.addr == x) =
      (l.map PeerInfo.addr).findIdx (· == x) := by
    intro l
    rw [List.findIdx_map]
    rfl
  have hkeys : (s.peerList.modify (s.peerList.findIdx fun q => q.addr == x)
      (·.setStatus id.toUInt8 now)).map PeerInfo.addr = s.peerList.map PeerInfo.addr :=
    map_modify (by intro q; rfl) _ _
  rw [processMessage_ban hid hq, named, peerList_postParallel, peerList_modifyPeer,
    hsame (List.modify _ _ _), hkeys, ← hsame, List.getElem?_modify_eq]
  exact congrArg _ hq

end ServerList

namespace AdminHTTPServer

variable {a : AdminHTTPServer} {heap : Ptr → Option PeerInfo} {c : PeerInfo} {id : UInt32}
  {p : Ptr} {i : Nat} {now : Datetime}

end AdminHTTPServer

namespace Bind

variable {w w₁ w₂ w₃ : Bind} {id : UInt32} {x p : Ptr} {now : Datetime}

/-- Both sides show the connection as established: `ServerList` in the entry `x`, the admin in
the copy `p` of that entry. -/
structure Live (w : Bind) (x p : Ptr) : Prop where
  entry : ∃ q, w.list.named x = some q ∧ q.parallel = some p ∧
    q.status = statusConnectionEstablished.toUInt8
  listed : p ∈ w.admin.peerList
  copy : ∃ c, w.list.parallels p = some c ∧ c.status = statusConnectionEstablished.toUInt8

/-- A ban of the entry `x` on its way: `ServerList` takes it from its queue, the admin works off
what has been waiting for it, and then takes what the ban has been forwarded as. -/
structure BanProcessed (id : UInt32) (x : Ptr) (w w₁ w₂ w₃ : Bind) : Prop where
  requested : w.balancer.queue.head? = some ⟨id, x⟩
  processed : ∃ now, w.perform (.balancer (.processMessage now)) = some w₁
  waited : ∃ clocks : List Datetime,
    w.list.parallelList.map List.length = some clocks.length ∧
      (clocks.map Op.receive).foldlM perform w₁ = some w₂
  shown : ∃ now, w₂.perform (.receive now) = some w₃

/-- What a ban may not change of a live connection. -/
structure Unharmed (x p : Ptr) (w w₁ w₂ w₃ : Bind) : Prop where
  live : w₃.Live x p
  list : w₁.list.serversList.map ServerInfo.counters = w.list.serversList.map ServerInfo.counters
  admin : w₃.admin.serverList.map ServerInfo.counters =
    w₂.admin.serverList.map ServerInfo.counters

theorem foldlM_receive {clocks : List Datetime} {queue rest : List Message}
    (hqueue : w.list.parallelList = some (queue ++ rest)) (hlength : clocks.length = queue.length)
    (h : (clocks.map Op.receive).foldlM perform w = some w₁) :
    w₁.list.parallelList = some rest ∧ w₁.list.peerList = w.list.peerList := by
  induction clocks generalizing w queue with
  | nil =>
      obtain rfl := List.length_eq_zero_iff.mp hlength.symm
      obtain rfl := Option.some.inj h
      exact ⟨hqueue, rfl⟩
  | cons now clocks ih =>
      obtain ⟨msg, queue, rfl⟩ := List.exists_cons_of_length_eq_add_one hlength.symm
      rw [List.map_cons] at h
      obtain ⟨u, hu, h⟩ := foldlM_cons_eq_some.mp h
      obtain ⟨hrest, hpeers, -⟩ := receive_spec hqueue hu
      obtain ⟨hdone, hsame⟩ := ih hrest (Nat.succ.inj hlength) h
      exact ⟨hdone, hsame.trans hpeers⟩

theorem BanProcessed.forwarded (h : BanProcessed id x w w₁ w₂ w₃) (hid : id ∈ banIds)
    (hlive : w.Live x p) :
    w₂.list.parallelList = some [⟨id, p⟩] ∧
      ∃ q, w₂.list.named x = some q ∧ q.status = id.toUInt8 := by
  obtain ⟨q, hq, hp, -⟩ := hlive.entry
  obtain ⟨now, hprocessed⟩ := h.processed
  obtain ⟨clocks, hlength, hwaited⟩ := h.waited
  obtain ⟨waiting, hwaiting, hcount⟩ := Option.map_eq_some_iff.mp hlength
  have hlist := list_processMessage h.requested hprocessed
  have hqueue : w₁.list.parallelList = some (waiting ++ [⟨id, p⟩]) := by
    rw [hlist, ServerList.processMessage_ban hid hq, hp]
    simp only [ServerList.postParallel, ServerList.modifyPeer, hwaiting]
  obtain ⟨hrest, hpeers⟩ := foldlM_receive hqueue hcount.symm hwaited
  refine ⟨hrest, q.setStatus id.toUInt8 now, ?_, rfl⟩
  rw [ServerList.named, hpeers, hlist]
  exact ServerList.named_processMessage_ban hid hq now

/-- No live connection gets through a ban unharmed: neither side shows it as established. -/
theorem ban_harms (hlive : w.Live x p) (hid : id ∈ banIds) (h : BanProcessed id x w w₁ w₂ w₃) :
    ¬Unharmed x p w w₁ w₂ w₃ := by
  intro hunharmed
  obtain ⟨now, hshown⟩ := h.shown
  obtain ⟨-, q, hq, hbanned⟩ := h.forwarded hid hlive
  obtain ⟨q', hq', -, hestablished⟩ := hunharmed.live.entry
  have hsame : w₃.list.named x = w₂.list.named x := by
    rw [ServerList.named, ServerList.named, (peerList_receive hshown).1]
  have hentry : some q' = some q := by
    calc
      some q' = w₃.list.named x := hq'.symm
      _ = w₂.list.named x := hsame
      _ = some q := hq
  obtain rfl := Option.some.inj hentry
  exact (ServerList.ban_spec hid).2.2.1 (hbanned.symm.trans hestablished)

namespace Sample

def banned : List Op :=
  established ++ [.banAll ConnectionPeer.Sample.client.ip ConnectionPeer.Sample.client.port]

/-- The ban of a connection that both sides show, with an empty queue of the admin; then the
admin counts the connection as finished. -/
theorem processed_banned : ∃ w w₁ w₃ : Bind, ReachableBy anyStep w ∧ w.Live 100 200 ∧
    BanProcessed statusPeerConnectionBanAll 100 w w₁ w₁ w₃ ∧
      w₁.admin.serverList.map (fun srv => (srv.connected, srv.finished)) = [(1, 0)] ∧
      w₃.admin.serverList.map (fun srv => (srv.connected, srv.finished)) = [(0, 1)] := by
  have hrun : (banned.foldlM perform start).any fun w =>
      (w.balancer.queue.head? = some ⟨statusPeerConnectionBanAll, 100⟩ ∧
        w.list.parallelList = some [] ∧ 200 ∈ w.admin.peerList) &&
      ((w.list.named 100).any fun q =>
        q.parallel = some 200 ∧ q.status = statusConnectionEstablished.toUInt8) &&
      ((w.list.parallels 200).any fun c => c.status = statusConnectionEstablished.toUInt8) &&
      (w.perform (.balancer (.processMessage 14))).any fun w₁ =>
        (w₁.admin.serverList.map (fun srv => (srv.connected, srv.finished)) = [(1, 0)]) &&
        (w₁.perform (.receive 15)).any fun w₃ =>
          w₃.admin.serverList.map (fun srv => (srv.connected, srv.finished)) = [(0, 1)] := by
    decide +kernel
  simp only [Option.any_eq_true, Bool.and_eq_true, decide_eq_true_eq] at hrun
  obtain ⟨w, hw, ⟨⟨⟨hhead, hnone, hlisted⟩, hentry⟩, hcopy⟩, w₁, hprocessed, hcount, w₃, hshown,
    hcount'⟩ := hrun
  refine ⟨w, w₁, w₃, (Reach.start started_start).foldlM (guarded_anyStep _ _ _) hw,
    ⟨hentry, hlisted, hcopy⟩, ⟨hhead, ⟨14, hprocessed⟩, ⟨[], ?_, rfl⟩, 15, hshown⟩, hcount, hcount'⟩
  rw [hnone]
  rfl

end Sample

theorem ban_harms_shown : ∃ w w₁ w₃ : Bind, w.Live 100 200 ∧
    BanProcessed statusPeerConnectionBanAll 100 w w₁ w₁ w₃ ∧ ¬Unharmed 100 200 w w₁ w₁ w₃ := by
  obtain ⟨w, w₁, w₃, -, hlive, hprocessed, -⟩ := Sample.processed_banned
  exact ⟨w, w₁, w₃, hlive, hprocessed, ban_harms hlive (by decide) hprocessed⟩

/-- The admin counts a banned connection as finished. -/
theorem banned_uncounted : ¬∀ (w w₁ w₂ w₃ : Bind) (id : UInt32) (x p : Ptr),
    ReachableBy anyStep w → w.Live x p → id ∈ banIds → BanProcessed id x w w₁ w₂ w₃ →
      Unharmed x p w w₁ w₂ w₃ := by
  intro h
  obtain ⟨w, w₁, w₃, hw, hlive, hprocessed, hcount, hcount'⟩ := Sample.processed_banned
  have hsame := (h w w₁ w₁ w₃ _ 100 200 hw hlive (by decide) hprocessed).admin
  have hfinished := congrArg (List.map fun x => (x.2.2.1, x.2.2.2.1)) hsame
  rw [List.map_map, List.map_map] at hfinished
  have hdiffer : [((0 : Int), (1 : Int))] = [(1, 0)] := by
    calc
      [((0 : Int), (1 : Int))] = _ := hcount'.symm
      _ = _ := hfinished
      _ = [(1, 0)] := hcount
  exact absurd hdiffer (by decide)

end Bind

end Relb
