import Relb.Model.Bind
import Relb.Proofs.Orderly
import Relb.Proofs.SessionReuse
/-!
# Copies and their clients

The copy that the admin has of an entry names a client and the address of the entry. As long
as `new` returns no address that an entry or a copy still uses, a listed entry belongs to
the client that its copies name, however often entries come, go and are armed again.
-/

namespace Relb

open Lib

def PeerInfo.client (q : PeerInfo) : IpAddress × UInt16 := (q.srcIp, q.srcPort)

namespace ServerList

variable {s t : ServerList} {q : PeerInfo} {id : UInt32} {now : Datetime} {x p : Ptr}
  {clientIp : IpAddress} {clientPort : UInt16} {pcm : Option ManagerId} {addr parallelAddr : Ptr}

/-! ## Who touches the copies -/

@[simp] theorem parallels_postParallel (s : ServerList) (id : UInt32) (p : Option Ptr) :
    (s.postParallel id p).parallels = s.parallels := by
  unfold postParallel
  split <;> rfl

theorem parallels_recordMessage (s : ServerList) (index : Nat) (q : PeerInfo) (id : UInt32)
    (now : Datetime) : (s.recordMessage index q id now).parallels = s.parallels := by
  unfold recordMessage
  split_ifs
  · rfl
  · exact congrArg Prod.snd (link_closePInfo _ _)
  · exact parallels_postParallel _ _ _

theorem parallels_processMessage (s : ServerList) (msg : Message) (now : Datetime) :
    (s.processMessage msg now).parallels = s.parallels := by
  rcases processMessage_cases s msg now with ⟨-, hsame⟩ | ⟨index, pinfo, -, -, hmsg⟩
  · rw [hsame]
  · rw [hmsg, ← parallels_recordMessage s index pinfo msg.id now]
    exact congrArg Prod.snd (link_countMessage _ _ _ _ _)

theorem parallels_cleanConnections (s : ServerList) :
    s.cleanConnections.parallels = s.parallels := by
  refine foldl_keeps (f := parallels) (fun s q => ?_) s.peerList _
  rw [cleanEntry]
  split
  · rw [parallels_postParallel, cleanServer]
    split <;> rfl
  · rfl

theorem parallels_addPeer (s : ServerList) (q : PeerInfo) (p : Ptr) :
    (s.addPeer q p).parallels = s.parallels ∨
      (s.addPeer q p).parallels = Function.update s.parallels p (some (copyAt q p)) := by
  have hsame : (s.addPeer q p).parallels = if s.parallelList.isSome then
      Function.update s.parallels p (some (copyAt q p)) else s.parallels := by
    rw [addPeer, parallels_postParallel]
    dsimp only
    split
    · ext y
      rw [Function.update_apply]
      rfl
    · rfl
  rw [hsame]
  split
  · exact .inr rfl
  · exact .inl rfl

@[simp] theorem client_withParallel (s : ServerList) (q : PeerInfo) (p : Ptr) :
    (s.withParallel q p).client = q.client := by
  unfold withParallel
  split <;> rfl

/-! ## Names -/

/-- What a copy says for good: its client, and where its entry is. -/
def names (s : ServerList) (p : Ptr) : Option ((IpAddress × UInt16) × Option Ptr) :=
  (s.parallels p).map fun c => (c.client, c.parallel)

theorem names_congr (h : t.parallels = s.parallels) : t.names = s.names := by
  ext p
  rw [names, names, h]

/-- A listed entry belongs to the client that its copies name. -/
def Matched (s : ServerList) : Prop :=
  ∀ p client, ∀ q ∈ s.peerList, s.names p = some (client, some q.addr) → q.client = client

/-- Nothing that a copy says is lost. -/
def Remembers (s t : ServerList) : Prop := ∀ p n, s.names p = some n → t.names p = some n

theorem Remembers.of_eq (h : t.names = s.names) : s.Remembers t := fun p n hn => by rw [h, hn]

theorem Matched.of_eq (h : s.Matched) (hnames : t.names = s.names)
    (hpeers : ∀ q ∈ t.peerList, ∃ q₀ ∈ s.peerList, q₀.addr = q.addr ∧ q₀.client = q.client) :
    t.Matched := by
  intro p client q hq hname
  obtain ⟨q₀, hq₀, haddr, hclient⟩ := hpeers q hq
  rw [hnames, ← haddr] at hname
  exact hclient.symm.trans (h p client q₀ hq₀ hname)

/-- An address that no entry and no copy uses is free for an entry, and one without a copy for a
copy. -/
structure Unused (s : ServerList) (addr parallelAddr : Ptr) : Prop where
  entry : ∀ q ∈ s.peerList, q.addr ≠ addr
  named : ∀ p client, s.names p ≠ some (client, some addr)
  copy : s.parallels parallelAddr = none

/-- A new entry comes, and maybe its copy. -/
theorem Matched.enter (h : s.Matched) (hunused : s.Unused addr parallelAddr)
    (hnew : q.addr = addr)
    (hparallels : t.parallels = s.parallels ∨
      t.parallels = Function.update s.parallels parallelAddr (some (copyAt q parallelAddr)))
    (hpeers : ∀ y ∈ t.peerList, y ∈ s.peerList ∨ y.addr = addr ∧ y.client = q.client) :
    t.Matched ∧ s.Remembers t := by
  have hnames : ∀ p n, t.names p = some n →
      s.names p = some n ∨ p = parallelAddr ∧ n = (q.client, some addr) := by
    intro p n hn
    rcases hparallels with hsame | hadded
    · rw [names, hsame] at hn
      exact .inl hn
    · rw [names, hadded] at hn
      by_cases hp : p = parallelAddr
      · subst hp
        rw [Function.update_self] at hn
        exact .inr ⟨rfl, (Option.some.inj hn).symm.trans (by rw [← hnew]; rfl)⟩
      · rw [Function.update_of_ne hp] at hn
        exact .inl hn
  refine ⟨fun p client y hy hname => ?_, fun p n hn => ?_⟩
  · rcases hnames p _ hname with hold | ⟨-, heq⟩
    · rcases hpeers y hy with hy | ⟨haddr, -⟩
      · exact h p client y hy hold
      · rw [haddr] at hold
        exact absurd hold (hunused.named p client)
    · obtain ⟨rfl, haddr⟩ := Prod.mk.inj heq
      rcases hpeers y hy with hy | ⟨-, hclient⟩
      · exact absurd (Option.some.inj haddr) (hunused.entry y hy)
      · exact hclient
  · rcases hparallels with hsame | hadded
    · rwa [names, hsame]
    · have hp : p ≠ parallelAddr := by
        rintro rfl
        rw [names, hunused.copy] at hn
        cases hn
      rw [names, hadded, Function.update_of_ne hp]
      exact hn

/-! ## Operations -/

/-- An entry that is armed again keeps its client; a new one is for the client that calls. -/
theorem Outcome.matched {r : ServerList × Option PeerInfo}
    (ho : s.Outcome clientIp clientPort pcm now addr parallelAddr r) (h : s.Matched)
    (hunused : s.Unused addr parallelAddr) : r.1.Matched ∧ s.Remembers r.1 := by
  cases ho with
  | refused last hnone hassign => exact ⟨h, fun p n hn => hn⟩
  | @reused peer server old hvalid hport hreused hassign =>
      have hnames : (s.afterReuse peer server old clientPort pcm now).names = s.names := by
        apply names_congr
        rw [afterReuse, parallels_postParallel]
        exact congrArg Prod.snd (link_closePInfo _ _)
      refine ⟨h.of_eq hnames fun q hq => ?_, .of_eq hnames⟩
      rw [peerList_afterReuse] at hq
      rcases mem_modify hq with hq | ⟨y, hy, rfl⟩
      · exact ⟨q, List.mem_of_mem_eraseIdx hq, rfl, rfl⟩
      · obtain rfl : y = old := Option.some.inj (hy.symm.trans hvalid.found)
        exact ⟨y, List.mem_of_getElem? hy, rfl, congrArg (Prod.mk y.srcIp) hport⟩
  | @recreated peer server old hvalid hassign =>
      refine h.enter hunused rfl (parallels_addPeer _ _ _) fun y hy => ?_
      rw [peerList_afterRecreation, List.mem_append, List.mem_singleton] at hy
      rcases hy with hy | rfl
      · exact .inl (List.mem_of_mem_filter hy)
      · exact .inr ⟨addr_withParallel _ _ _, client_withParallel _ _ _⟩
  | @assigned last srv hnone hsrv hallowed hassign =>
      refine h.enter hunused rfl (parallels_addPeer _ _ _) fun y hy => ?_
      rw [peerList_afterAssignment, List.mem_append, List.mem_singleton] at hy
      rcases hy with hy | rfl
      · exact .inl hy
      · exact .inr ⟨addr_withParallel _ _ _, client_withParallel _ _ _⟩

theorem Matched.processMessage (h : s.Matched) (msg : Message) (now : Datetime) :
    (s.processMessage msg now).Matched ∧ s.Remembers (s.processMessage msg now) := by
  have hnames := names_congr (parallels_processMessage s msg now)
  refine ⟨h.of_eq hnames fun q hq => ?_, .of_eq hnames⟩
  have hsub := map_processMessage (f := fun q : PeerInfo => (q.addr, q.client))
    (fun q status now => rfl) s msg now
  obtain ⟨q₀, hq₀, heq⟩ := List.mem_map.mp (hsub.subset (List.mem_map_of_mem hq))
  exact ⟨q₀, hq₀, Prod.mk.inj heq⟩

theorem Matched.cleanConnections (h : s.Matched) :
    s.cleanConnections.Matched ∧ s.Remembers s.cleanConnections := by
  have hnames := names_congr (parallels_cleanConnections s)
  refine ⟨h.of_eq hnames fun q hq => ?_, .of_eq hnames⟩
  rw [peerList_cleanConnections] at hq
  exact ⟨q, List.mem_of_mem_filter hq, rfl, rfl⟩

theorem Matched.purgeConnections (h : s.Matched) (now : Datetime) :
    (s.purgeConnections now).Matched ∧ s.Remembers (s.purgeConnections now) := by
  have hnames := names_congr (congrArg Prod.snd (link_purgeConnections s now))
  refine ⟨h.of_eq hnames fun q hq => ?_, .of_eq hnames⟩
  rw [peerList_purgeConnections] at hq
  exact ⟨q, hq, rfl, rfl⟩

end ServerList

end Relb
