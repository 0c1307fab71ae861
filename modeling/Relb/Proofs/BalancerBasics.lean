import Relb.Model.Balancer
import Relb.Proofs.Assignment
import Relb.Proofs.Holding
/-!
# The peers of the balancer

Which peers the managers hold, and which operations do not concern a manager: the requests
that are passed on only wait, and every other operation works for one manager at most.
-/

namespace Relb

open Lib

namespace Balancer

variable {b b' : Balancer} {op : Op} {m : ManagerId} {p : ConnectionPeer}

/-- The peers that some manager holds. -/
def Held (b : Balancer) (m : ManagerId) (p : ConnectionPeer) : Prop := p ∈ (b.managers m).peers

theorem peerList_foldl_closePInfo (l : List (ManagerId × Option Ptr))
    (t : ThreadedConnectionManager) :
    (l.foldl (fun t r => t.closePInfo r.2) t).peerList = t.peerList ∧
      (l.foldl (fun t r => t.closePInfo r.2) t).connectingPeerList = t.connectingPeerList := by
  induction l generalizing t with
  | nil => exact ⟨rfl, rfl⟩
  | cons r l ih => exact ih (t.closePInfo r.2)

theorem toBeClosed_foldl_closePInfo (l : List (ManagerId × Option Ptr))
    (t : ThreadedConnectionManager) :
    (l.foldl (fun t r => t.closePInfo r.2) t).toBeClosed = t.toBeClosed ++ l.map Prod.snd := by
  induction l generalizing t with
  | nil => rw [List.map_nil, List.append_nil]; rfl
  | cons r l ih =>
      rw [List.foldl_cons, ih, List.map_cons]
      exact List.append_assoc _ [r.2] _

theorem toBeClosed_passRequests (b : Balancer) (m : ManagerId) :
    (b.passRequests.managers m).toBeClosed =
      (b.managers m).toBeClosed ++ (b.list.closeRequests.filter (·.1 == m)).map Prod.snd :=
  toBeClosed_foldl_closePInfo _ _

@[simp] theorem peerList_passRequests (b : Balancer) (m : ManagerId) :
    (b.passRequests.managers m).peerList = (b.managers m).peerList :=
  (peerList_foldl_closePInfo _ _).1

@[simp] theorem connectingPeerList_passRequests (b : Balancer) (m : ManagerId) :
    (b.passRequests.managers m).connectingPeerList = (b.managers m).connectingPeerList :=
  (peerList_foldl_closePInfo _ _).2

theorem held_passRequests {m : ManagerId} {p : ConnectionPeer} :
    b.passRequests.Held m p ↔ b.Held m p := by
  simp [Held, ThreadedConnectionManager.peers]

theorem managers_setManager_self (m : ManagerId) (t : ThreadedConnectionManager) :
    (b.setManager m t).managers m = t := Function.update_self _ _ _

theorem managers_setManager_of_ne {m' : ManagerId} (h : m ≠ m') (t : ThreadedConnectionManager) :
    (b.setManager m' t).managers m = b.managers m := Function.update_of_ne h _ _

/-- The peer that `setServer` makes for an entry. -/
def newConnection (pClient : Socket) (sock : Int) (memory : Endpoint → Nat → UInt8)
    (pinfo : PeerInfo) : ConnectionPeer :=
  .create memory (some pClient) (some ⟨sock, pinfo.dstIp, pinfo.dstPort⟩) true (some pinfo.addr)

section SetServer

variable (b : Balancer) (pClient : Socket) (pcm : ManagerId) (now : Datetime)
  (addr parallelAddr : Ptr) (sock : Int) (memory : Endpoint → Nat → UInt8) (m : ManagerId)

theorem list_setServer :
    (b.setServer pClient pcm now addr parallelAddr sock memory).list =
      { (b.list.getServer pClient.ip pClient.port (some pcm) now addr parallelAddr).1 with
        closeRequests := [] } := by
  unfold setServer
  dsimp only
  split <;> rfl

theorem queue_setServer :
    (b.setServer pClient pcm now addr parallelAddr sock memory).queue = b.queue := by
  unfold setServer
  dsimp only
  split <;> rfl

theorem peerList_setServer :
    ((b.setServer pClient pcm now addr parallelAddr sock memory).managers m).peerList =
      (b.managers m).peerList := by
  unfold setServer
  dsimp only
  split
  · by_cases hm : m = pcm
    · subst hm
      simp [setManager, ThreadedConnectionManager.addConnectionPeer]
    · rw [managers_setManager_of_ne hm, peerList_passRequests]
  · rw [peerList_passRequests]

theorem connectingPeerList_setServer :
    ((b.setServer pClient pcm now addr parallelAddr sock memory).managers m).connectingPeerList =
      (b.managers m).connectingPeerList ++
        if m = pcm then
          (b.list.getServer pClient.ip pClient.port (some pcm) now addr parallelAddr).2.toList.map
            (newConnection pClient sock memory)
        else [] := by
  unfold setServer
  dsimp only
  cases (b.list.getServer pClient.ip pClient.port (some pcm) now addr parallelAddr).2 with
  | none => simp
  | some q =>
      by_cases hm : m = pcm
      · subst hm
        simp [setManager, ThreadedConnectionManager.addConnectionPeer, newConnection]
      · rw [managers_setManager_of_ne hm, connectingPeerList_passRequests, if_neg hm,
          List.append_nil]

end SetServer

/-! ## Steps -/

def requestIds : List UInt32 :=
  [statusPeerConnectionKicked, statusPeerConnectionBanThis, statusPeerConnectionBanAll]

/-- What each operation does, and what it takes. -/
inductive Performs (b : Balancer) : Op → Balancer → Prop
  | setServer (pClient : Socket) (pcm : ManagerId) (now : Datetime) (addr parallelAddr : Ptr)
      (sock : Int) (memory : Endpoint → Nat → UInt8) :
      b.Performs (.setServer pClient pcm now addr parallelAddr sock memory)
        (b.setServer pClient pcm now addr parallelAddr sock memory)
  | processMessage {msg : Message} {queue : List Message} (hqueue : b.queue = msg :: queue)
      (now : Datetime) :
      b.Performs (.processMessage now)
        (passRequests { b with list := b.list.processMessage msg now, queue := queue })
  | adminRequest {msg : Message} (hid : msg.id ∈ requestIds) :
      b.Performs (.adminRequest msg) { b with queue := b.queue ++ [msg] }
  | cleanConnections :
      b.Performs .cleanConnections (passRequests { b with list := b.list.cleanConnections })
  | purgeConnections (now : Datetime) :
      b.Performs (.purgeConnections now)
        (passRequests { b with list := b.list.purgeConnections now })
  | manager (m : ManagerId) {op : ThreadedConnectionManager.Op} {t : ThreadedConnectionManager}
      {msgs : List Message} (hop : (b.managers m).perform op = some (t, msgs)) :
      b.Performs (.manager m op) { b.setManager m t with queue := b.queue ++ msgs }

theorem performs (hb : b.perform op = some b') : b.Performs op b' := by
  cases op with
  | setServer pClient pcm now addr parallelAddr sock memory =>
      obtain rfl := Option.some.inj hb
      exact .setServer ..
  | processMessage now =>
      change b.processMessage now = some b' at hb
      unfold processMessage at hb
      split at hb
      · cases hb
      · rename_i hqueue
        obtain rfl := Option.some.inj hb
        exact .processMessage hqueue now
  | adminRequest msg =>
      change b.adminRequest msg = some b' at hb
      unfold adminRequest at hb
      split at hb
      · rename_i hid
        obtain rfl := Option.some.inj hb
        exact .adminRequest hid
      · cases hb
  | cleanConnections =>
      obtain rfl := Option.some.inj hb
      exact .cleanConnections
  | purgeConnections now =>
      obtain rfl := Option.some.inj hb
      exact .purgeConnections now
  | manager m op =>
      obtain ⟨⟨t, msgs⟩, hop, rfl⟩ := Option.map_eq_some_iff.mp hb
      exact .manager m hop

/-! ## One peer for an entry -/

/-- No two peers have the same entry. -/
structure OneLive (b : Balancer) : Prop where
  nodup : ∀ m, ((b.managers m).peers.map ConnectionPeer.pinfo).Nodup
  apart : ∀ m m' p p', b.Held m p → b.Held m' p' → p.pinfo = p'.pinfo → m = m'

theorem OneLive.of_subperm (h : b.OneLive)
    (hpeers : ∀ m, ((b'.managers m).peers.map ConnectionPeer.pinfo).Subperm
      ((b.managers m).peers.map ConnectionPeer.pinfo)) : b'.OneLive := by
  have hheld : ∀ m p, b'.Held m p → ∃ p₀, b.Held m p₀ ∧ p₀.pinfo = p.pinfo := by
    intro m p hp
    exact List.mem_map.mp ((hpeers m).subset (List.mem_map_of_mem hp))
  refine ⟨fun m => ?_, fun m m' p p' hp hp' hpinfo => ?_⟩
  · obtain ⟨l, hperm, hsub⟩ := hpeers m
    exact hperm.nodup_iff.mp ((h.nodup m).sublist hsub)
  · obtain ⟨q, hq, hsame⟩ := hheld m p hp
    obtain ⟨q', hq', hsame'⟩ := hheld m' p' hp'
    apply h.apart m m' q q' hq hq'
    calc
      q.pinfo = p.pinfo := hsame
      _ = p'.pinfo := hpinfo
      _ = q'.pinfo := hsame'.symm

theorem held_append {pcm : ManagerId} {x : ConnectionPeer}
    (hpeers : ∀ m, (b'.managers m).peers = (b.managers m).peers ++ if m = pcm then [p] else []) :
    b'.Held m x ↔ b.Held m x ∨ m = pcm ∧ x = p := by
  by_cases hm : m = pcm
  · simp [Held, hpeers, hm]
  · simp [Held, hpeers, hm]

theorem forall_mem_enter {P : ConnectionPeer → Prop} {l : List ConnectionPeer} {m pcm : ManagerId}
    (hl : ∀ x ∈ l, P x) (hp : P p) : ∀ x ∈ l ++ if m = pcm then [p] else [], P x := by
  intro x hx
  rcases List.mem_append.mp hx with hx | hx
  · exact hl x hx
  · split at hx
    · rw [List.mem_singleton.mp hx]
      exact hp
    · cases hx

theorem OneLive.enter (h : b.OneLive) {a : Ptr} {pcm : ManagerId} (hpinfo : p.pinfo = some a)
    (hunheld : ∀ m x, b.Held m x → x.pinfo ≠ some a)
    (hpeers : ∀ m, (b'.managers m).peers = (b.managers m).peers ++ if m = pcm then [p] else []) :
    b'.OneLive := by
  refine ⟨fun m => ?_, fun m m' x x' hx hx' hsame => ?_⟩
  · rw [hpeers, List.map_append, List.nodup_append]
    refine ⟨h.nodup m, by split <;> simp, ?_⟩
    intro i hi j hj heq
    obtain ⟨x, hx, rfl⟩ := List.mem_map.mp hi
    split at hj
    · rw [List.map_singleton, List.mem_singleton, hpinfo] at hj
      exact hunheld m x hx (heq.trans hj)
    · cases hj
  · rcases (held_append hpeers).mp hx with hx | ⟨rfl, rfl⟩
    · rcases (held_append hpeers).mp hx' with hx' | ⟨rfl, rfl⟩
      · exact h.apart m m' x x' hx hx' hsame
      · exact absurd (hsame.trans hpinfo) (hunheld m x hx)
    · rcases (held_append hpeers).mp hx' with hx' | ⟨rfl, rfl⟩
      · exact absurd (hsame.symm.trans hpinfo) (hunheld m' x' hx')
      · rfl

theorem OneLive.manager (h : b.OneLive) {op : ThreadedConnectionManager.Op}
    {t : ThreadedConnectionManager} {msgs : List Message}
    (hop : (b.managers m).perform op = some (t, msgs)) :
    OneLive { b.setManager m t with queue := b.queue ++ msgs } := by
  apply h.of_subperm
  intro m'
  by_cases hm : m' = m
  · subst hm
    simpa [setManager] using ThreadedConnectionManager.pinfos_perform hop
  · simp [setManager, Function.update_of_ne hm, List.Subperm.refl]

theorem oneLive_started (h : Started b) : b.OneLive := by
  obtain ⟨list, -, rfl⟩ := h
  exact ⟨fun m => List.nodup_nil, fun m m' p p' hp => (nomatch hp)⟩

/-- The manager that an operation works for. -/
def Op.manager? : Op → Option ManagerId
  | .setServer _ pcm _ _ _ _ _ => some pcm
  | .manager m _ => some m
  | _ => none

theorem peers_perform (hb : b.perform op = some b') (hm : op.manager? ≠ some m) :
    (b'.managers m).peers = (b.managers m).peers := by
  have hpassed : ∀ c : Balancer, (c.passRequests.managers m).peers = (c.managers m).peers :=
    fun c => by simp [ThreadedConnectionManager.peers]
  cases performs hb with
  | setServer pClient pcm now addr parallelAddr sock memory =>
      have hne : m ≠ pcm := fun heq => hm (heq ▸ rfl)
      rw [ThreadedConnectionManager.peers, peerList_setServer, connectingPeerList_setServer,
        if_neg hne, List.append_nil, ThreadedConnectionManager.peers]
  | processMessage _ now => rw [hpassed]
  | adminRequest => rfl
  | cleanConnections => rw [hpassed]
  | purgeConnections now => rw [hpassed]
  | manager m' hop =>
      have hne : m ≠ m' := fun heq => hm (heq ▸ rfl)
      exact congrArg _ (managers_setManager_of_ne hne _)

theorem peers_foldlM {ops : List Op} (hb : ops.foldlM perform b = some b')
    (hm : ∀ op ∈ ops, op.manager? ≠ some m) : (b'.managers m).peers = (b.managers m).peers := by
  refine kept_foldlM (I := fun c => (c.managers m).peers = (b.managers m).peers) ?_ rfl hb
  intro op hop c c' hc hstep
  exact (peers_perform hstep (hm op hop)).trans hc

namespace Sample

def accept : Op := .setServer ConnectionPeer.Sample.client 1 10 100 200 2 fun _ _ => 0

def start : Balancer := create ServerList.Sample.twoServers

theorem started_start : Started start := ⟨_, ServerList.Sample.configured_twoServers, rfl⟩

theorem eq_of_held {ops : List Op} (hb : ops.foldlM perform start = some b)
    (hops : ∀ op ∈ ops, op.manager? = none ∨ op.manager? = some 1) (hp : b.Held m p) : m = 1 := by
  by_contra hm
  have hsame : (b.managers m).peers = [] := by
    apply peers_foldlM hb
    intro op hop heq
    rcases hops op hop with h | h
    · cases h.symm.trans heq
    · exact hm (Option.some.inj (h.symm.trans heq)).symm
  rw [Held, hsame] at hp
  cases hp

end Sample

end Balancer

end Relb
